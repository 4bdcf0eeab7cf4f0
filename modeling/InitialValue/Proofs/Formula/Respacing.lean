/-
  Blanks between the tokens of a formula.

  A normal text is laid out from pieces, and the passes that write stars and settle constants go by
  pieces (`cut_sewn`).  So two formulas of the same pieces are read as the same equation, as long as
  the first pass, which spells powers, does the same to both (`SameReading`, `blanks_immaterial`).
  This pass looks at single characters beside a power: whether a factor or a bracket touches its
  operands decides whether it is spelled, and so which formula is valid (`blanks_matter`).

  Where no power is written, nothing has to be asked for (`cut_powered`).  Powers in arithmetic
  formulas are spelled whatever blanks stand around operators and inside brackets (`Phrase.tight`).
-/
import InitialValue.Proofs.Formula.Characters
import InitialValue.Proofs.Formula.Juxtaposed
import InitialValue.Proofs.Formula.Piecewise
import InitialValue.Proofs.Formula.Stability

namespace InitialValue.Formula

open InitialValue.Text
open Token (isPlainSolid lexemeMarks scanAll)

/-! ## Normal texts -/

section

variable {c : Char} {cs : List Char}

theorem drawn_doubled_eq (is : List Ink) : drawn (doubled is) = raise (drawn is) := by
  induction is with
  | nil => rfl
  | cons a is ih =>
    have hspace : (if a.apart = true then [' '] else []) =
        raise (if a.apart = true then [' '] else []) := by
      split <;> rfl
    have hset : typeset (doubled (a :: is)) = raise (typeset (a :: is)) := by
      by_cases hcaret : a.char = '^'
      · rw [doubled, if_pos hcaret, typeset, typeset, hcaret, raise_caret, ← ih]
        rfl
      · rw [doubled, if_neg hcaret, typeset, typeset, raise_cons hcaret, ih]
    rw [drawn_doubled, drawn_cons, raise_append, ← hspace, hset]

theorem typeset_doubled (is : List Ink) : typeset (doubled is) = raise (typeset is) := by
  rcases is with _ | ⟨a, is⟩
  · rfl
  · by_cases hcaret : a.char = '^'
    · rw [doubled, if_pos hcaret, typeset, typeset, hcaret, raise_caret, ← drawn_doubled_eq]
      rfl
    · rw [doubled, if_neg hcaret, typeset, typeset, raise_cons hcaret, drawn_doubled_eq]

theorem mem_drawn {is : List Ink} (h : c ∈ drawn is) : c = ' ' ∨ ∃ a ∈ is, c = a.char := by
  induction is with
  | nil => cases h
  | cons a is ih =>
    have hcases : c = ' ' ∨ c = a.char ∨ c ∈ drawn is := by
      rw [drawn] at h
      split at h
      · simpa using h
      · exact Or.inr (by simpa using h)
    rcases hcases with hc | hc | hc
    · exact Or.inl hc
    · exact Or.inr ⟨a, List.mem_cons_self, hc⟩
    · refine (ih hc).imp_right ?_
      rintro ⟨b, hb, hchar⟩
      exact ⟨b, List.mem_cons_of_mem _ hb, hchar⟩

theorem mem_typeset {is : List Ink} (h : c ∈ typeset is) : c = ' ' ∨ ∃ a ∈ is, c = a.char := by
  rcases is with _ | ⟨a, is⟩
  · cases h
  · exact mem_drawn (by rw [drawn_cons]; exact List.mem_append_right _ h)

/-- The characters of some ink stand in the text. -/
theorem mem_of_mem_inks {a : Ink} {apart : Bool} (h : a ∈ inks apart cs) : a.char ∈ cs := by
  induction cs generalizing apart with
  | nil => cases h
  | cons c cs ih =>
    by_cases hc : isBlank c = true
    · rw [inks_blank hc] at h
      exact List.mem_cons_of_mem _ (ih h)
    · rw [inks_cons (Bool.eq_false_iff.mpr hc)] at h
      rcases List.mem_cons.mp h with rfl | h
      · exact List.mem_cons_self
      · exact List.mem_cons_of_mem _ (ih h)

theorem mem_spaced (h : c ∈ typeset (spaced cs)) : c = ' ' ∨ isBlank c = false ∧ c ∈ cs := by
  refine (mem_typeset h).imp_right ?_
  rintro ⟨a, ha, rfl⟩
  obtain ⟨⟨b, hb, hchar⟩, -⟩ := mem_setOff ha
  rw [hchar]
  exact ⟨not_blank_of_mem_inks hb, mem_of_mem_inks hb⟩

/-- Power signs stand apart in a layout, so no operator stands directly in front of one. -/
theorem aired_typeset {is : List Ink} (h : ∀ a ∈ is, a.char = '^' → a.apart = true) :
    Aired (typeset is) := by
  have hdrawn : ∀ c, Aired (c :: drawn is) := by
    induction is with
    | nil => exact fun c => .singleton c
    | cons a is ih =>
      intro c
      have hrest := ih (fun b hb => h b (List.mem_cons_of_mem _ hb)) a.char
      rw [drawn]
      split
      · refine List.isChain_cons_cons.mpr ⟨fun _ => by decide,
          List.isChain_cons_cons.mpr ⟨fun hspace => ?_, hrest⟩⟩
        exact absurd hspace (by decide)
      · rename_i happart
        exact List.isChain_cons_cons.mpr
          ⟨fun _ hcaret => happart (h a List.mem_cons_self hcaret), hrest⟩
  rcases is with _ | ⟨a, is⟩
  · exact .nil
  · have hchain := hdrawn ' '
    rw [drawn] at hchain
    split at hchain
    · exact (List.isChain_cons.mp (List.isChain_cons.mp hchain).2).2
    · exact (List.isChain_cons.mp hchain).2

theorem unsigned_of_raise (h : Unsigned (raise cs)) : Unsigned cs := by
  induction cs with
  | nil => exact .nil
  | cons c cs ih =>
    refine List.isChain_cons.mpr ⟨fun d hd hmark => ?_, ih ?_⟩
    · have hcaret : c ≠ '^' := by
        rintro rfl
        rcases hmark with hmark | hmark <;> exact absurd hmark (by decide)
      obtain ⟨cs, rfl⟩ := List.head?_eq_some_iff.mp hd
      by_cases hd : d = '^'
      · subst hd
        decide
      · rw [raise_cons hcaret, raise_cons hd] at h
        exact (List.isChain_cons_cons.mp h).1 hmark
    · by_cases hcaret : c = '^'
      · subst hcaret
        exact (List.isChain_cons.mp (List.isChain_cons.mp h).2).2
      · rw [raise_cons hcaret] at h
        exact (List.isChain_cons.mp h).2

/-! ## Texts of the same pieces -/

theorem Recast.unique {f : List Char → List Char} {x y z : List Char} (h : Recast f x y)
    (h' : Recast f x z) : y = z := by
  induction h generalizing z with
  | nil => exact h'.of_nil.symm
  | other hc _ ih =>
    obtain ⟨z', rfl, hrest⟩ := h'.of_other hc
    rw [ih hrest]
  | word hne hw hx _ ih =>
    obtain ⟨z', rfl, hrest⟩ := h'.of_word hne hw hx
    rw [ih hrest]

theorem Resettled.unique {f : List Char → List Char} {cs' out out' : List Char}
    (h : Resettled f cs out) (h' : Resettled f cs' out') (hcut : cut cs = cut cs') :
    cut out = cut out' := by
  have hpieces := h'.pieces
  rw [← hcut] at hpieces
  exact List.right_unique_forall₂' (fun _ _ _ hy hz => hy.unique hz) h.pieces hpieces

/-- A text with its stars written and its constants settled. -/
def sewn (cs : List Char) : List Char := eulerRule.apply (piRule.apply (starred cs))

/-- **The pieces decide** what the passes for stars and constants make of a text. -/
theorem cut_sewn {cs' : List Char} (h : cut cs = cut cs') : cut (sewn cs) = cut (sewn cs') := by
  have hstarred : cut (starred cs) = cut (starred cs') := by rw [cut_starred, cut_starred, h]
  have hpi := (piRule_recasts.apply settling_smallPi _).unique
    (piRule_recasts.apply settling_smallPi _) hstarred
  exact (eulerRule_recasts.apply settling_smallEuler _).unique
    (eulerRule_recasts.apply settling_smallEuler _) hpi

theorem formulaic_written {out : List Char} (h : Formulaic cs)
    (hout : ∀ c ∈ out, c ∈ cs ∨ c ∈ written) : Formulaic out := by
  have hwritten : Formulaic written := forall_mem_of_all (by decide)
  exact fun c hc => (hout c hc).elim (h c) (hwritten c)

theorem mem_sewn (h : c ∈ sewn cs) : c ∈ cs ∨ c ∈ written := by
  unfold sewn starred at h
  have hpi := written_trans (eulerRule_writes.apply h) piRule_writes.apply
  have hbrackets := written_trans hpi bracketTermRule_writes.apply
  have hnumbers := written_trans hbrackets numberBracketRule_writes.apply
  exact written_trans hnumbers nameBracketRule_writes.apply

/-- A text with its powers spelled as calls, as far as they are. -/
def powered (cs : List Char) : List Char := starsRule.apply (spellPowers (trim cs))

theorem mem_powered (h : c ∈ powered cs) : c ∈ cs ∨ c ∈ written :=
  (written_trans (starsRule_writes.apply h) mem_spellPowers).imp_left mem_of_mem_trim

/-- **A normal text**: its operators are single, and it is the layout of sewn pieces. -/
theorem normalize_iff {n : List Char} : normalize cs = .ok n ↔
    Calm doubles (cut (powered cs)) ∧ n = raise (typeset (spaced (sewn (powered cs)))) := by
  rw [normalize_ok, ← powered, checkOperators_iff, finish_eq, typeset_doubled, ← sewn, eq_comm]

/-! ## Texts without powers -/

/-- No power sign, in either spelling. -/
def Powerless (cs : List Char) : Prop :=
  '^' ∉ cs ∧ cs.IsChain fun a b => ¬ (a = '*' ∧ b = '*')

instance : DecidablePred Powerless := fun cs =>
  inferInstanceAs (Decidable ('^' ∉ cs ∧ cs.IsChain fun a b => ¬ (a = '*' ∧ b = '*')))

theorem Powerless.within {xs : List Char} (h : Powerless cs) (hxs : xs <:+: cs) : Powerless xs := by
  refine ⟨fun hmem => h.1 (hxs.mem hmem), ?_⟩
  obtain ⟨front, back, rfl⟩ := hxs
  exact (List.isChain_append.mp (List.isChain_append.mp h.2).1).2.1

theorem Powerless.sign (h : Powerless cs) : powerSignLength? cs = none := by
  unfold powerSignLength?
  split
  · exact absurd List.mem_cons_self h.1
  · exact absurd ⟨rfl, rfl⟩ (List.isChain_cons_cons.mp h.2).1
  · rfl

theorem Powerless.noPower (h : Powerless cs) : NoPower cs :=
  (h.within (List.dropWhile_suffix isBlank).isInfix).sign

theorem Powerless.spellPowers (h : Powerless cs) : spellPowers cs = cs := by
  refine spellPowers_none ?_
  have hfind : ∀ before, powerRule.findFrom? before cs = none := by
    induction cs with
    | nil => exact fun _ => rfl
    | cons c cs ih =>
      intro before
      rw [Rule.findFrom?, powerRule_none fun n _ =>
        exponent?_noPower (h.within (List.drop_suffix n _).isInfix).noPower]
      exact ih (h.within (List.suffix_cons _ _).isInfix) _
  exact hfind []

theorem Powerless.stars (h : Powerless cs) : starsRule.apply cs = cs := by
  refine Rule.pass_quiet_end fun pre c post hsplit => ?_
  rw [List.append_nil]
  have hpost : Powerless (c :: post) := h.within (hsplit ▸ (List.suffix_append _ _).isInfix)
  unfold starsRule
  split
  · rename_i heq
    obtain ⟨rfl, rfl⟩ := List.cons.inj heq
    exact absurd ⟨rfl, rfl⟩ (List.isChain_cons_cons.mp hpost.2).1
  · rfl

theorem inks_behind {g : List Char} (hg : ∀ c ∈ g, isBlank c = true) (apart : Bool)
    (cs : List Char) : inks apart (cs ++ g) = inks apart cs := by
  induction cs generalizing apart with
  | nil =>
    have hgap := inks_gap hg apart []
    rwa [List.append_nil] at hgap
  | cons c cs ih =>
    rw [List.cons_append, inks, inks, ih, ih]

theorem cut_trim (cs : List Char) : cut (trim cs) = cut cs := by
  obtain ⟨g, hg, hcs⟩ := exists_gap cs
  obtain ⟨k, hk, hend⟩ := exists_gap (skipBlanks cs).reverse
  have hback : skipBlanks cs = dropEnd (skipBlanks cs) ++ k.reverse := by
    have hreverse := congrArg List.reverse hend
    rwa [List.reverse_reverse, List.reverse_append] at hreverse
  rw [trim_eq]
  conv_rhs => rw [hcs, cut_gap hg, hback]
  rw [cut, cut, inks_behind fun c hc => hk c (List.mem_reverse.mp hc)]

/-- **Without powers, the first pass changes no piece.** -/
theorem cut_powered (h : Powerless cs) : cut (powered cs) = cut cs := by
  have hwithin := trim_infix cs
  have htrim : Powerless (trim cs) := h.within hwithin
  rw [powered, htrim.spellPowers, htrim.stars, cut_trim]

end

/-! ## Reading texts of the same pieces -/

section

variable {c : Char} {cs cs' n n' : List Char}

/-- No number of the normal text of a formula has a sign in its exponent. -/
def SignFree (cs : List Char) : Prop := ∀ n, normalize cs = .ok n → Unsigned n

theorem signFree_of_normalize (hn : normalize cs = .ok n) (h : Unsigned n) : SignFree cs := by
  intro n' hn'
  rw [hn] at hn'
  cases hn'
  exact h

/-- The tokens of a normal text, by the pieces it was laid out from. -/
theorem scanAll_normal (h : Formulaic cs) (hn : normalize cs = .ok n) (hsigns : Unsigned n) :
    scanAll n = tokensOf (cut (sewn (powered cs))) := by
  obtain ⟨hcalm, rfl⟩ := normalize_iff.mp hn
  have hsewn : Formulaic (sewn (powered cs)) :=
    formulaic_written h fun c hc => written_trans (mem_sewn hc) mem_powered
  rw [← cut_spaced (sewn (powered cs))]
  refine scanAll_cut (fun c hc => ?_) (fun c hc hblank => ?_) ?_
    (aired_typeset fun a ha => (mem_setOff ha).2) (unsigned_of_raise hsigns)
  · rcases mem_spaced hc with rfl | ⟨-, hmem⟩
    · decide
    · exact hsewn c hmem
  · refine (mem_spaced hc).resolve_right fun hink => ?_
    rw [hink.1] at hblank
    cases hblank
  · rw [cut_spaced]
    exact (settled_passes hcalm).operators

theorem namesIn_normal (h : Formulaic cs) (hn : normalize cs = .ok n) :
    scanNames 0 none n = (raisePieces (cut (sewn (powered cs)))).flatMap (scanNames 0 none) := by
  have hchars : Formulaic n := formulaic_written h fun c hc => mem_normalize hn hc
  obtain ⟨-, rfl⟩ := normalize_iff.mp hn
  rw [scanNames_cut hchars (Or.inl rfl), cut_raise, cut_spaced]

/-- **Normal texts laid out from the same pieces** are read alike. -/
theorem ofNormal_alike (h : Formulaic cs) (h' : Formulaic cs') (hn : normalize cs = .ok n)
    (hn' : normalize cs' = .ok n') (hsigns : Unsigned n) (hsigns' : Unsigned n')
    (hpieces : cut (powered cs) = cut (powered cs')) :
    (Single.ofNormal n).outcome = (Single.ofNormal n').outcome := by
  have hsewn := cut_sewn hpieces
  have hnames : namesIn n = namesIn n' := by
    unfold namesIn
    rw [namesIn_normal h hn, namesIn_normal h' hn', hsewn]
  have htokens : tokens? n = tokens? n' := by
    unfold tokens?
    rw [← scanAll, ← scanAll, scanAll_normal h hn hsigns, scanAll_normal h' hn' hsigns', hsewn]
  have htext : Expr.ofText? n = Expr.ofText? n' := by
    unfold Expr.ofText?
    rw [htokens]
  refine ofNormal_outcome hnames ?_
  unfold Equation.compile
  rw [hnames, htext]

theorem checkSafety_alike (h : Formulaic cs) (h' : Formulaic cs') (hpieces : cut cs = cut cs') :
    checkSafety cs = checkSafety cs' := by
  have hrefused : refusedIn? cs = refusedIn? cs' := by
    refine congrArg (Option.map _) (List.find?_congr fun f hf => ?_)
    rw [occurs_cut hf h, occurs_cut hf h', hpieces]
  unfold checkSafety
  rw [hrefused]

theorem read_ok_iff {e : Equation} :
    (Single.read (.text (String.ofList cs) : Value Float)).outcome = .ok e ↔
      checkSafety cs = .ok () ∧ ∃ n, normalize cs = .ok n ∧ n ≠ [] ∧
        (Single.ofNormal n).outcome = .ok e := by
  constructor
  · intro h
    cases hnormal : Equation.normalText (String.ofList cs) with
    | error cause =>
      have hread : Single.read (.text (String.ofList cs) : Value Float) =
          ⟨[], [], .error (.notParsed cause)⟩ := by
        unfold Single.read
        rw [show Equation.normalTextOf (.text (String.ofList cs) : Value Float) = _ from hnormal]
      rw [hread] at h
      cases h
    | ok n =>
      have hread : Single.read (.text (String.ofList cs) : Value Float) = Single.ofNormal n := by
        unfold Single.read
        rw [show Equation.normalTextOf (.text (String.ofList cs) : Value Float) = _ from hnormal]
      rw [hread] at h
      unfold Equation.normalText at hnormal
      rw [String.toList_ofList] at hnormal
      obtain ⟨_, hsafe, hnormal⟩ := bind_eq_ok.mp hnormal
      obtain ⟨n', hn', hnormal⟩ := bind_eq_ok.mp hnormal
      split at hnormal
      · cases hnormal
      · rename_i hempty
        obtain rfl := pure_eq_ok.mp hnormal
        exact ⟨hsafe, n', hn', fun hnil => hempty (by rw [hnil]; rfl), h⟩
  · rintro ⟨hsafe, n, hn, hne, he⟩
    rw [read_outcome hn hne, hsafe]
    exact he

/-- **Two texts of one meaning**: they are valid formulas together, and then they are the same equation
    and have the same value everywhere. -/
structure SameReading (cs cs' : List Char) : Prop where
  outcome : ∀ e, (Single.read (.text (String.ofList cs) : Value Float)).outcome = .ok e ↔
    (Single.read (.text (String.ofList cs') : Value Float)).outcome = .ok e
  value : ∀ e, (Single.read (.text (String.ofList cs) : Value Float)).outcome = .ok e → ∀ t y,
    (Single.read (.text (String.ofList cs) : Value Float)).evaluate t y =
      (Single.read (.text (String.ofList cs') : Value Float)).evaluate t y

theorem SameReading.of_outcome
    (h : ∀ e, (Single.read (.text (String.ofList cs) : Value Float)).outcome = .ok e ↔
      (Single.read (.text (String.ofList cs') : Value Float)).outcome = .ok e) :
    SameReading cs cs' := by
  refine ⟨h, fun e he t y => ?_⟩
  unfold Single.evaluate
  rw [he, (h e).mp he]

theorem empty_unread : ∃ r, (Single.ofNormal []).outcome = .error r := ⟨_, rfl⟩

theorem read_respaced_of {e : Equation} (h : Formulaic cs) (h' : Formulaic cs')
    (hsigns : SignFree cs) (hsigns' : SignFree cs') (hpieces : cut cs = cut cs')
    (hpowers : cut (powered cs) = cut (powered cs'))
    (hread : (Single.read (.text (String.ofList cs) : Value Float)).outcome = .ok e) :
    (Single.read (.text (String.ofList cs') : Value Float)).outcome = .ok e := by
  obtain ⟨hsafe, n, hn, -, he⟩ := read_ok_iff.mp hread
  obtain ⟨hcalm, -⟩ := normalize_iff.mp hn
  rw [hpowers] at hcalm
  have hn' := normalize_iff.mpr ⟨hcalm, rfl⟩
  have halike := ofNormal_alike h h' hn hn' (hsigns _ hn) (hsigns' _ hn') hpowers
  refine read_ok_iff.mpr ⟨checkSafety_alike h h' hpieces ▸ hsafe, _, hn', ?_, halike ▸ he⟩
  intro hempty
  obtain ⟨r, hr⟩ := empty_unread
  rw [hempty, hr, he] at halike
  cases halike

/-- **Formulas of the same pieces** are read alike, as long as the same powers are spelled in both. -/
theorem read_respaced (h : Formulaic cs) (h' : Formulaic cs') (hsigns : SignFree cs)
    (hsigns' : SignFree cs') (hpieces : cut cs = cut cs')
    (hpowers : cut (powered cs) = cut (powered cs')) : SameReading cs cs' :=
  .of_outcome fun _ => ⟨read_respaced_of h h' hsigns hsigns' hpieces hpowers,
    read_respaced_of h' h hsigns' hsigns hpieces.symm hpowers.symm⟩

end

/-! ## Blanks in arithmetic formulas -/

namespace Phrase

/-- The phrase without blanks. -/
@[simp]
def tight : Phrase → Phrase
  | number n => number n
  | name w => name w
  | call f _ args _ => call f .none args.tight .none
  | bare f _ => bare f .none
  | group _ p _ => group .none p.tight .none
  | power b _ doubled _ e => power b.tight .none doubled .none e.tight
  | minus _ p => minus .none p.tight
  | binary op x _ _ y => binary op x.tight .none .none y.tight
  | joint x y => joint x.tight y.tight
  | comma x _ _ y => comma x.tight .none .none y.tight

@[simp]
theorem strength_tight (p : Phrase) : p.tight.strength = p.strength := by
  cases p <;> rfl

theorem seam_tight (p : Phrase) : p.tight.seam = p.seam := by
  induction p <;> simp_all [seam]

theorem lexemes_tight (p : Phrase) : p.tight.lexemes = p.lexemes := by
  induction p <;> simp_all [lexemes, seam_tight]

theorem tree_tight (p : Phrase) : p.tight.tree = p.tree := by
  induction p <;> simp_all [tree]

theorem hasBracket_tight (p : Phrase) : p.tight.hasBracket = p.hasBracket := by
  induction p <;> simp_all [hasBracket]

theorem isFragile_tight (p : Phrase) : p.tight.isFragile = p.isFragile := by
  cases p <;> rfl

theorem isName_tight (p : Phrase) : p.tight.isName = p.isName := by
  cases p <;> rfl

theorem isSigned_tight (p : Phrase) : p.tight.isSigned = p.isSigned := by
  cases p <;> rfl

theorem ending_tight (p : Phrase) : p.tight.ending = p.ending := by
  induction p <;> simp_all [ending, isName_tight]

theorem lead_tight (p : Phrase) : p.tight.lead = p.lead := by
  induction p <;> simp_all [lead, hasBracket_tight, isSigned_tight]

theorem apart_tight (x y : Phrase) : apart x.tight y.tight = apart x y := by
  simp [apart, ending_tight, lead_tight]

theorem proper_tight (p : Phrase) : p.tight.proper = p.proper := by
  induction p <;> simp_all [proper, opens, ending_tight, lead_tight]

theorem sturdy_tight (p : Phrase) : p.tight.sturdy = p.sturdy := by
  induction p <;> simp_all [sturdy, isFragile_tight]

theorem uncaught_tight (p : Phrase) : p.tight.uncaught = p.uncaught := by
  induction p <;> simp_all [uncaught, apart_tight]

theorem Sound.of_tight {p q : Phrase} (h : p.Sound) (htight : p.tight = q.tight) : q.Sound :=
  ⟨by rw [← proper_tight, ← htight, proper_tight, h.proper],
    by rw [← sturdy_tight, ← htight, sturdy_tight, h.sturdy],
    by rw [← uncaught_tight, ← htight, uncaught_tight, h.uncaught]⟩

/-- Blanks make no difference to the check for refused fragments. -/
theorem checkSafety_tight {p q : Phrase} (h : p.Sound) (htight : p.tight = q.tight)
    (g g' k k' : Gap) : checkSafety (g.text ++ (p.text ++ g'.text)) =
      checkSafety (k.text ++ (q.text ++ k'.text)) := by
  have hrefused : refusedIn? (g.text ++ (p.text ++ g'.text)) =
      refusedIn? (k.text ++ (q.text ++ k'.text)) := by
    refine congrArg (Option.map _) (List.find?_congr fun f hf => ?_)
    rw [occurs_text h g g' hf, occurs_text (h.of_tight htight) k k' hf, ← lexemes_tight p, htight,
      lexemes_tight]
  unfold checkSafety
  rw [hrefused]

end Phrase

/-- **Arithmetic formulas that differ in blanks only** are read alike. -/
theorem read_tight {p q : Phrase} (h : p.Sound) (hstrength : 2 ≤ p.strength)
    (htight : p.tight = q.tight) (g g' k k' : Gap)
    (hshallow : Shallow (g.text ++ (p.text ++ g'.text)))
    (hshallow' : Shallow (k.text ++ (q.text ++ k'.text))) :
    SameReading (g.text ++ (p.text ++ g'.text)) (k.text ++ (q.text ++ k'.text)) := by
  have hstrength' : 2 ≤ q.strength := by
    rwa [← Phrase.strength_tight, ← htight, Phrase.strength_tight]
  have htrees : p.tree = q.tree := by rw [← Phrase.tree_tight, htight, Phrase.tree_tight]
  obtain ⟨n, n', hn, hne, hn', hne', hnames, hcompile⟩ := compile_of_tree h (h.of_tight htight)
    hstrength hstrength' htrees g g' k k' hshallow hshallow'
  refine .of_outcome fun e => ?_
  rw [read_outcome hn hne, read_outcome hn' hne', Phrase.checkSafety_tight h htight g g' k k',
    ofNormal_outcome hnames hcompile]

/-! ## Blanks between tokens -/

/-- **Leeway for blanks**: two texts over the characters of formulas that have the same pieces, in both
    of which the first pass spells the same powers; two such texts without powers; or two arithmetic
    formulas, with powers, that differ in the blanks around operators and commas, inside brackets and
    at the ends. -/
inductive Respaced : List Char → List Char → Prop
  | powers {cs cs' : List Char} : Formulaic cs → Formulaic cs' → SignFree cs → SignFree cs' →
    cut cs = cut cs' → cut (powered cs) = cut (powered cs') → Respaced cs cs'
  | powerless {cs cs' : List Char} : Formulaic cs → Formulaic cs' → SignFree cs → SignFree cs' →
    cut cs = cut cs' → Powerless cs → Powerless cs' → Respaced cs cs'
  | arithmetic {p q : Phrase} : p.Sound → 2 ≤ p.strength → p.tight = q.tight → (g g' k k' : Gap) →
    Shallow (g.text ++ (p.text ++ g'.text)) → Shallow (k.text ++ (q.text ++ k'.text)) →
    Respaced (g.text ++ (p.text ++ g'.text)) (k.text ++ (q.text ++ k'.text))

/-- **Blanks between tokens do not matter** as long as they do not change which powers are spelled:
    the two formulas are valid together, are the same equation, and agree in every value. -/
theorem blanks_immaterial {cs cs' : List Char} (h : Respaced cs cs') : SameReading cs cs' := by
  cases h with
  | powers hchars hchars' hsigns hsigns' hpieces hpowers =>
    exact read_respaced hchars hchars' hsigns hsigns' hpieces hpowers
  | powerless hchars hchars' hsigns hsigns' hpieces hpower hpower' =>
    refine read_respaced hchars hchars' hsigns hsigns' hpieces ?_
    rw [cut_powered hpower, cut_powered hpower', hpieces]
  | arithmetic hsound hstrength htight g g' k k' hshallow hshallow' =>
    exact read_tight hsound hstrength htight g g' k k' hshallow hshallow'

theorem blanks_immaterial_powers :
    SameReading "t^2+sin (y)".toList "t ^ 2 + sin( y )".toList ∧
      SameReading "2 (y)".toList "2( y)".toList ∧ SameReading "t^3".toList "t ^3 ".toList := by
  refine ⟨blanks_immaterial (.powers (forall_mem_of_all (by decide)) (forall_mem_of_all (by decide))
    (signFree_of_normalize (n := "pow(t, 2) + sin (y)".toList) (by decide +kernel) (by decide))
    (signFree_of_normalize (n := "pow(t, 2) + sin( y )".toList) (by decide +kernel) (by decide))
    (by decide) (by decide +kernel)), ?_, ?_⟩
  · exact blanks_immaterial (.powerless (forall_mem_of_all (by decide))
      (forall_mem_of_all (by decide))
      (signFree_of_normalize (n := "2 * (y)".toList) (by decide +kernel) (by decide))
      (signFree_of_normalize (n := "2 * ( y)".toList) (by decide +kernel) (by decide))
      (by decide) (by decide) (by decide))
  · exact blanks_immaterial (.arithmetic (p := .power (.name .time) .none false .none (.number .three))
      (q := .power (.name .time) .single false .none (.number .three))
      ⟨by decide, by decide, by decide⟩ (by decide) rfl .none .none .none .single
      (shallow_of_normalize (n := "pow(t, 3)".toList) (by decide) rfl (by decide))
      (shallow_of_normalize (n := "pow(t, 3)".toList) (by decide) rfl (by decide)))

/-- **Blanks between tokens do matter** to powers: with a blank in front of the bracket, the power in
    `2(y)^1` is spelled as a call, and no star is written between the factors any more. -/
theorem blanks_matter : ¬ ∀ cs cs', Formulaic cs → Formulaic cs' → cut cs = cut cs' →
    SameReading cs cs' := by
  intro h
  have hsame := h "2(y)^1".toList "2 (y)^1".toList (forall_mem_of_all (by decide))
    (forall_mem_of_all (by decide)) (by decide)
  have hvalid : (Single.read (.text "2(y)^1" : Value Float)).outcome.toOption.isSome = true := by
    decide +kernel
  have hinvalid : (Single.read (.text "2 (y)^1" : Value Float)).outcome.toOption.isSome = false := by
    decide +kernel
  cases hread : (Single.read (.text "2(y)^1" : Value Float)).outcome with
  | error r =>
    rw [hread] at hvalid
    cases hvalid
  | ok e =>
    have hread' : (Single.read (.text "2 (y)^1" : Value Float)).outcome = .ok e :=
      (hsame.outcome e).mp hread
    rw [hread'] at hinvalid
    cases hinvalid

end InitialValue.Formula
