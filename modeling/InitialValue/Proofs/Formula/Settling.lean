/-
  Settled constants.

  The two rules for constants replace words, each by itself: what they make of a text they make of
  its pieces (`Recasts.pass`), and of a piece word by word (`Recast`).  A word that is no constant
  stays as it is (`Settling`).  So no piece comes to ask for a star that did not (`Recast.calm`), and
  where all words are settled nothing changes any more (`Recasts.pass_fixed`).
-/
import InitialValue.Proofs.Formula.Stars

namespace InitialValue.Formula

open InitialValue.Text
open StateName (mantissaLength? numberLength?_eq signLength_eq)

/-! ## Replacing words -/

/-- `Recast f x y` — the second text is the first with each of its words replaced. -/
inductive Recast (f : List Char → List Char) : List Char → List Char → Prop
  | nil : Recast f [] []
  | other {c : Char} {x y : List Char} (hc : isWord c = false) (h : Recast f x y) :
      Recast f (c :: x) (c :: y)
  | word {w x y : List Char} (hne : w ≠ []) (hw : ∀ c ∈ w, isWord c = true) (hx : StopsAt isWord x)
      (h : Recast f x y) : Recast f (w ++ x) (f w ++ y)

/-- A replacement of words that settles constants at most. -/
def Settling (f : List Char → List Char) : Prop :=
  ∀ w, f w = w ∨ isPi w = true ∧ f w = ['p', 'i'] ∨ isEuler w = true ∧ f w = ['e']

variable {f g : List Char → List Char} {x y z : List Char}

theorem exists_recast (f : List Char → List Char) (x : List Char) : ∃ y, Recast f x y := by
  induction x using runs_induction isWord with
  | nil => exact ⟨[], .nil⟩
  | other c x hc ih =>
    obtain ⟨y, hy⟩ := ih
    exact ⟨c :: y, .other hc hy⟩
  | run w x hne hw hx ih =>
    obtain ⟨y, hy⟩ := ih
    exact ⟨f w ++ y, .word hne hw hx hy⟩

theorem Recast.of_nil (h : Recast f [] y) : y = [] := by
  generalize htext : [] = text at h
  cases h with
  | nil => rfl
  | other => cases htext
  | word hne => exact absurd (List.append_eq_nil_iff.mp htext.symm).1 hne

theorem Recast.of_other {c : Char} (hc : isWord c = false) (h : Recast f (c :: x) y) :
    ∃ y', y = c :: y' ∧ Recast f x y' := by
  generalize htext : c :: x = text at h
  cases h with
  | nil => cases htext
  | other _ h =>
    obtain ⟨rfl, rfl⟩ := List.cons.inj htext
    exact ⟨_, rfl, h⟩
  | @word w x' y' hne hw =>
    obtain ⟨d, w, rfl⟩ := List.exists_cons_of_ne_nil hne
    have hd := hw d List.mem_cons_self
    rw [← (List.cons.inj htext).1, hc] at hd
    cases hd

theorem Recast.of_word {w : List Char} (hne : w ≠ []) (hw : ∀ c ∈ w, isWord c = true)
    (hx : StopsAt isWord x) (h : Recast f (w ++ x) y) : ∃ y', y = f w ++ y' ∧ Recast f x y' := by
  generalize htext : w ++ x = text at h
  cases h with
  | nil => exact absurd (List.append_eq_nil_iff.mp htext).1 hne
  | @other c x' y' hc =>
    obtain ⟨d, w, rfl⟩ := List.exists_cons_of_ne_nil hne
    have hd := hw d List.mem_cons_self
    rw [(List.cons.inj htext).1, hc] at hd
    cases hd
  | @word w' x' y' hne' hw' hx' h =>
    have htake := congrArg (List.takeWhile isWord) htext
    rw [takeWhile_append_stop hw hx, takeWhile_append_stop hw' hx'] at htake
    subst htake
    rw [List.append_cancel_left htext]
    exact ⟨y', rfl, h⟩

/-- **The replacements of a rule.**  The rule starts at words only and writes what the words are
    replaced by. -/
structure Recasts (r : Rule) (f : List Char → List Char) : Prop where
  ignores : ∀ c, isWord c = false → r.Ignores c
  word : ∀ {w before rest : List Char}, w ≠ [] → (∀ c ∈ w, isWord c = true) →
    endsWord before.head? = false → StopsAt isWord rest →
    r.pass 0 before (w ++ rest) = f w ++ r.pass 0 (w.reverse ++ before) rest

variable {r : Rule} {before cs : List Char}

/-- A pass over a piece replaces its words. -/
theorem Recasts.piece (hr : Recasts r f) (h : Recast f x y) (hcs : StopsAt isWord cs)
    (hbefore : endsWord before.head? = false ∨ StopsAt isWord x) :
    r.pass 0 before (x ++ cs) = y ++ r.pass 0 (x.reverse ++ before) cs := by
  induction h generalizing before with
  | nil => rfl
  | @other c x y hc _ ih =>
    rw [List.cons_append, Rule.pass_none (hr.ignores c hc _ _),
      ih (Or.inl (show endsWord (c :: before).head? = false from hc))]
    simp
  | @word w x y hne hw hx _ ih =>
    have hfree : endsWord before.head? = false := hbefore.resolve_right (not_stopsAt_run hne hw)
    have hrest : StopsAt isWord (x ++ cs) := by
      rcases x with _ | ⟨c, x⟩
      · exact hcs
      · exact stopsAt_cons (hx c rfl)
    rw [List.append_assoc, hr.word hne hw hfree hrest, ih (Or.inr hx)]
    simp

/-! ## What settling keeps -/

theorem Settling.word (hf : Settling f) {w : List Char} (hw : ∀ c ∈ w, isWord c = true) :
    ∀ c ∈ f w, isWord c = true := by
  rcases hf w with h | ⟨-, h⟩ | ⟨-, h⟩
  · rwa [h]
  · rw [h]
    exact forall_mem_of_all (by decide)
  · rw [h]
    exact forall_mem_of_all (by decide)

theorem Settling.ne (hf : Settling f) {w : List Char} (hne : w ≠ []) : f w ≠ [] := by
  rcases hf w with h | ⟨-, h⟩ | ⟨-, h⟩
  · rwa [h]
  · rw [h]
    exact List.cons_ne_nil _ _
  · rw [h]
    exact List.cons_ne_nil _ _

theorem isPi_parts {w : List Char} (h : isPi w = true) :
    ∃ a b, w = [a, b] ∧ sameLetter 'p' a = true ∧ sameLetter 'i' b = true := by
  unfold isPi at h
  split at h
  · exact ⟨_, _, rfl, Bool.and_eq_true_iff.mp h⟩
  · cases h

theorem isEuler_parts {w : List Char} (h : isEuler w = true) :
    ∃ a, w = [a] ∧ sameLetter 'e' a = true := by
  unfold isEuler at h
  split at h
  · exact ⟨_, rfl, h⟩
  · cases h

/-- Settled text may start with another letter, and with nothing else that is new. -/
def SameStart (c d : Char) : Prop := d = c ∨ isPlainStart c = true ∧ isPlainStart d = true

theorem Settling.head (hf : Settling f) {w : List Char} {d : Char} (hd : (f w).head? = some d) :
    ∃ c, w.head? = some c ∧ SameStart c d := by
  rcases hf w with h | ⟨hpi, h⟩ | ⟨he, h⟩
  · rw [h] at hd
    exact ⟨d, hd, Or.inl rfl⟩
  · obtain ⟨a, b, rfl, ha, -⟩ := isPi_parts hpi
    rw [h] at hd
    cases hd
    exact ⟨a, rfl, Or.inr ⟨sameLetter_start (Or.inl rfl) ha, by decide⟩⟩
  · obtain ⟨a, rfl, ha⟩ := isEuler_parts he
    rw [h] at hd
    cases hd
    exact ⟨a, rfl, Or.inr ⟨sameLetter_start (Or.inr rfl) ha, by decide⟩⟩

theorem Recast.head (h : Recast f x y) (hf : Settling f) {d : Char} (hd : y.head? = some d) :
    ∃ c, x.head? = some c ∧ SameStart c d := by
  cases h with
  | nil => cases hd
  | other => exact ⟨d, hd, Or.inl rfl⟩
  | @word w x y hne hw =>
    obtain ⟨e, rest, hrest⟩ := List.exists_cons_of_ne_nil (hf.ne hne)
    rw [hrest, List.cons_append] at hd
    obtain ⟨c, hc, hsame⟩ := hf.head (d := d) (by rw [hrest]; exact hd)
    obtain ⟨tail, rfl⟩ := List.head?_eq_some_iff.mp hc
    exact ⟨c, rfl, hsame⟩

theorem Recast.stops (h : Recast f x y) (hf : Settling f) (hx : StopsAt isWord x) :
    StopsAt isWord y := by
  intro d hd
  obtain ⟨c, hc, rfl | ⟨hstart, -⟩⟩ := h.head hf hd
  · exact hx d hc
  · have hword := isWord_of_isPlainWord (isPlainWord_of_isPlainStart hstart)
    rw [hx c hc] at hword
    cases hword

/-- No constant is called like a function. -/
theorem Settling.isFactor (hf : Settling f) (w : List Char) : isFactor (f w) = isFactor w := by
  have hfunction : ∀ {v : List Char}, isPi v = true ∨ isEuler v = true →
      functionNames.contains (String.ofList v) = false := by
    intro v hv
    rw [Bool.eq_false_iff]
    intro hmem
    have hnot := FunctionName.not_constant ⟨String.ofList v, hmem⟩
    rw [String.toList_ofList] at hnot
    rcases hv with hv | hv
    · rw [hnot.1] at hv
      cases hv
    · rw [hnot.2] at hv
      cases hv
  rcases hf w with h | ⟨hpi, h⟩ | ⟨he, h⟩
  · rw [h]
  · have hfree := hfunction (Or.inl hpi)
    obtain ⟨a, b, rfl, ha, -⟩ := isPi_parts hpi
    have hfactor : Formula.isFactor [a, b] = true := by
      rw [Formula.isFactor, hfree, sameLetter_start (Or.inl rfl) ha]
      rfl
    rw [h, hfactor]
    decide
  · have hfree := hfunction (Or.inr he)
    obtain ⟨a, rfl, ha⟩ := isEuler_parts he
    have hfactor : Formula.isFactor [a] = true := by
      rw [Formula.isFactor, hfree, sameLetter_start (Or.inr rfl) ha]
      rfl
    rw [h, hfactor]
    decide

theorem Recast.isFactor (h : Recast f x y) (hf : Settling f) :
    Formula.isFactor (lastWord y) = Formula.isFactor (lastWord x) := by
  induction h with
  | nil => rfl
  | other hc _ ih => rw [lastWord_mark hc, lastWord_mark hc, ih]
  | @word w x y hne hw hx h ih =>
    rcases x with _ | ⟨c, x⟩
    · rw [h.of_nil, List.append_nil, List.append_nil, lastWord_word hw, lastWord_word (hf.word hw),
        hf.isFactor]
    · have hc : isWord c = false := hx c rfl
      obtain ⟨y', rfl, -⟩ := h.of_other hc
      rw [lastWord_mark hc, lastWord_mark hc] at ih
      rw [lastWord_behind hc, lastWord_behind hc, ih]

/-! ### Numbers -/

/-- A character as a pattern for numbers sees it. -/
def shade (c : Char) : Char :=
  if isDigit c || c == '.' || c == '+' || c == '-' then c
  else if c == 'e' || c == 'E' then 'e'
  else 'x'

theorem shade_digit (c : Char) : isDigit (shade c) = isDigit c := by
  unfold shade
  split
  · rfl
  · rename_i h
    simp only [Bool.or_eq_true, not_or] at h
    rw [Bool.eq_false_iff.mpr h.1.1.1]
    split <;> decide

theorem shade_mark {m : Char} (hm : m = '.' ∨ m = '+' ∨ m = '-') (c : Char) :
    shade c = m ↔ c = m := by
  constructor
  · intro h
    unfold shade at h
    split at h
    · exact h
    · split at h
      · exact absurd hm (by rw [← h]; decide)
      · exact absurd hm (by rw [← h]; decide)
  · rintro rfl
    rcases hm with rfl | rfl | rfl <;> decide

theorem shade_exponent (c : Char) :
    (shade c == 'e' || shade c == 'E') = (c == 'e' || c == 'E') := by
  unfold shade
  split
  · rfl
  · split
    · rename_i h
      rw [h]
      rfl
    · rename_i h
      rw [Bool.eq_false_iff.mpr h]
      rfl

theorem head?_shade {m : Char} (hm : m = '.' ∨ m = '+' ∨ m = '-') (x : List Char) :
    (x.map shade).head? = some m ↔ x.head? = some m := by
  cases x with
  | nil => exact Iff.rfl
  | cons c x => simp [shade_mark hm]

theorem takeWhile_shade (x : List Char) :
    (x.map shade).takeWhile isDigit = (x.takeWhile isDigit).map shade := by
  rw [List.takeWhile_map]
  congr 2
  funext c
  exact shade_digit c

theorem mantissaLength?_shade (x : List Char) :
    mantissaLength? (x.map shade) = mantissaLength? x := by
  unfold mantissaLength?
  simp only [takeWhile_shade, List.length_map, ← List.map_drop, head?_shade (Or.inl rfl)]

theorem exponentLength_shade (x : List Char) : exponentLength (x.map shade) = exponentLength x := by
  rcases x with _ | ⟨e, x⟩
  · rfl
  · rw [List.map_cons, exponentLength_cons, exponentLength_cons, shade_exponent, signLength_eq,
      signLength_eq]
    simp only [head?_shade (Or.inr (Or.inl rfl)), head?_shade (Or.inr (Or.inr rfl)),
      ← List.map_drop, takeWhile_shade, List.length_map, List.isEmpty_map]

/-- A pattern for numbers sees the shades of characters only. -/
theorem numberLength?_shade (x : List Char) : numberLength? (x.map shade) = numberLength? x := by
  rw [numberLength?_eq, numberLength?_eq, mantissaLength?_shade]
  simp only [← List.map_drop, exponentLength_shade]

theorem toLower_euler {c : Char} (h : c.toLower = 'e') : c = 'e' ∨ c = 'E' := by
  unfold Char.toLower at h
  split at h
  · right
    have hval : c.val + 32 = 101 := congrArg Char.val h
    have hadd : c.val = 101 - 32 := by
      rw [← hval]
      simp
    exact Char.ext hadd
  · exact Or.inl h

theorem shade_start {c : Char} (hstart : isPlainStart c = true) (he : c ≠ 'e') (hE : c ≠ 'E') :
    shade c = 'x' := by
  have hplain := isPlainWord_of_isPlainStart hstart
  have hpoint : c ≠ '.' := ne_of_plain hplain (by decide)
  have hplus : c ≠ '+' := ne_of_plain hplain (by decide)
  have hminus : c ≠ '-' := ne_of_plain hplain (by decide)
  simp [shade, isDigit_of_isPlainStart hstart, hpoint, hplus, hminus, he, hE]

/-- The letters of `pi` have no part in numbers. -/
theorem shade_pi {l c : Char} (hl : l = 'p' ∨ l = 'i') (h : sameLetter l c = true) :
    shade c = 'x' := by
  have he : c ≠ 'e' ∧ c ≠ 'E' := by
    constructor <;> rintro rfl <;> rcases hl with rfl | rfl <;> exact absurd h (by decide)
  have hchar : ∀ n, c.toNat = n → c = Char.ofNat n := by
    rintro n rfl
    exact (Char.ofNat_toNat c).symm
  unfold sameLetter at h
  simp only [Bool.or_eq_true, Bool.and_eq_true, beq_iff_eq] at h
  rcases h with (h | ⟨-, h | h⟩) | ⟨-, h⟩
  · rcases toLower_cases h with rfl | hstart
    · rcases hl with rfl | rfl <;> decide
    · exact shade_start hstart he.1 he.2
  · rw [hchar _ h]
    decide
  · rw [hchar _ h]
    decide
  · rw [hchar _ h]
    decide

/-- Constants are settled by letters of the same shade. -/
theorem Settling.shade (hf : Settling f) (w : List Char) : (f w).map shade = w.map shade := by
  rcases hf w with h | ⟨hpi, h⟩ | ⟨he, h⟩
  · rw [h]
  · obtain ⟨a, b, rfl, ha, hb⟩ := isPi_parts hpi
    rw [h, List.map_cons, List.map_singleton, List.map_cons, List.map_singleton,
      shade_pi (Or.inl rfl) ha, shade_pi (Or.inr rfl) hb]
    decide
  · obtain ⟨a, rfl, ha⟩ := isEuler_parts he
    have hlower : a.toLower = 'e' := by simpa [sameLetter] using ha
    rw [h]
    rcases toLower_euler hlower with rfl | rfl <;> decide

theorem Recast.shade (h : Recast f x y) (hf : Settling f) :
    y.map Formula.shade = x.map Formula.shade := by
  induction h with
  | nil => rfl
  | other _ _ ih => rw [List.map_cons, List.map_cons, ih]
  | word _ _ _ _ ih => rw [List.map_append, List.map_append, hf.shade, ih]

/-! ## Pieces -/

/-- A link that asks no more of settled pieces than of others. -/
def Unmoved (p : Link) : Prop :=
  ∀ {f : List Char → List Char} {x y : List Char} {c d : Char}, Settling f → Recast f x y →
    SameStart c d → p y d = true → p x c = true

theorem SameStart.eq {c d m : Char} (h : SameStart c d) (hm : isPlainStart m = false) (hd : d = m) :
    c = m := by
  subst hd
  rcases h with h | ⟨-, h⟩
  · exact h.symm
  · rw [hm] at h
    cases h

theorem wordAsks_unmoved : Unmoved wordAsks := by
  intro f x y c d hf h hsame hasks
  obtain ⟨hopen, hfactor⟩ := Bool.and_eq_true_iff.mp hasks
  rw [h.isFactor hf] at hfactor
  rw [wordAsks, hsame.eq (by decide) (beq_iff_eq.mp hopen), hfactor]
  rfl

theorem numberAsks_unmoved : Unmoved numberAsks := by
  intro f x y c d hf h hsame hasks
  obtain ⟨hopen, hnumber⟩ := Bool.and_eq_true_iff.mp hasks
  have hshade := h.shade hf
  have hlength := congrArg List.length hshade
  rw [List.length_map, List.length_map] at hlength
  rw [← numberLength?_shade, hshade, numberLength?_shade, hlength] at hnumber
  rw [numberAsks, hsame.eq (by decide) (beq_iff_eq.mp hopen), hnumber]
  rfl

/-- A single mark comes of that mark only. -/
theorem Recast.of_mark {m : Char} (hm : isWord m = false) (hf : Settling f)
    (h : Recast f x [m]) : x = [m] := by
  generalize htext : [m] = text at h
  cases h with
  | nil => cases htext
  | @other c x y _ h =>
    obtain ⟨rfl, rfl⟩ := List.cons.inj htext
    have hnil := h.shade hf
    rw [List.map_nil, eq_comm, List.map_eq_nil_iff] at hnil
    rw [hnil]
  | @word w x y hne hw =>
    obtain ⟨d, rest, hrest⟩ := List.exists_cons_of_ne_nil (hf.ne hne)
    have hd := hf.word hw d (by rw [hrest]; exact List.mem_cons_self)
    rw [hrest, List.cons_append] at htext
    rw [← (List.cons.inj htext).1, hm] at hd
    cases hd

theorem closingAsks_unmoved : Unmoved closingAsks := by
  intro f x y c d hf h hsame hasks
  obtain ⟨hclosing, hterm⟩ := Bool.and_eq_true_iff.mp hasks
  rw [beq_iff_eq] at hclosing
  subst hclosing
  have hc : startsTerm c = true := by
    rcases hsame with rfl | ⟨hstart, -⟩
    · exact hterm
    · rw [startsTerm, hstart]
      rfl
  rw [closingAsks, h.of_mark (by decide) hf, hc]
  rfl

theorem isMultiplicative_of_isWord {c : Char} (h : isWord c = true) : isMultiplicative c = false :=
  isMultiplicative_of_isSolid (by rw [isSolid, h]; rfl)

theorem doubles_unmoved : Unmoved doubles := by
  intro f x y c d hf h hsame hasks
  obtain ⟨hleft, hright⟩ := Bool.and_eq_true_iff.mp hasks
  have hx : x = y := by
    rw [Bool.or_eq_true, beq_iff_eq, beq_iff_eq] at hleft
    rcases hleft with rfl | rfl
    · exact h.of_mark (by decide) hf
    · exact h.of_mark (by decide) hf
  have hd : isPlainStart d = false := by
    rw [Bool.eq_false_iff]
    intro hstart
    rw [isMultiplicative_of_isWord (isWord_of_isPlainWord (isPlainWord_of_isPlainStart hstart))]
      at hright
    cases hright
  rw [doubles, hx, hleft, hsame.eq hd rfl, hright]
  rfl

/-- **Settled pieces are as calm as the others.** -/
theorem calm_settled {p : Link} (hp : Unmoved p) (hf : Settling f) {ws vs : List (List Char)}
    (h : List.Forall₂ (Recast f) ws vs) (hcalm : Calm p ws) : Calm p vs := by
  induction h with
  | nil => trivial
  | @cons x y ws vs hxy hrest ih =>
    refine ⟨?_, ih hcalm.2⟩
    rw [Bool.eq_false_iff]
    intro hasks
    obtain ⟨d, hd, hp'⟩ := Link.asks_iff.mp hasks
    have hask : p.asks x ws = true := by
      cases hrest with
      | nil => cases hd
      | cons hnext =>
        obtain ⟨c, hc, hsame⟩ := hnext.head hf hd
        exact Link.asks_iff.mpr ⟨c, hc, hp hf hxy hsame hp'⟩
    rw [hcalm.1] at hask
    cases hask

/-! ## The passes -/

/-- What a rule that replaces words makes of a text. -/
structure Resettled (f : List Char → List Char) (cs out : List Char) : Prop where
  pieces : List.Forall₂ (Recast f) (cut cs) (cut out)
  fixed : (∀ x ∈ cut cs, Recast f x x) → out = cs
  stops : StopsAt isSolid cs → StopsAt isSolid out

theorem Recast.solid (h : Recast f x y) (hf : Settling f) (hx : ∀ c ∈ x, isSolid c = true) :
    ∀ c ∈ y, isSolid c = true := by
  induction h with
  | nil => exact hx
  | other _ _ ih =>
    intro d hd
    rcases List.mem_cons.mp hd with rfl | hd
    · exact hx d List.mem_cons_self
    · exact ih (fun e he => hx e (List.mem_cons_of_mem _ he)) d hd
  | word _ hw _ _ ih =>
    intro d hd
    rcases List.mem_append.mp hd with hd | hd
    · rw [isSolid, hf.word hw d hd]
      rfl
    · exact ih (fun e he => hx e (List.mem_append_right _ he)) d hd

/-- **A pass that settles constants** replaces the words of each piece. -/
theorem Recasts.pass (hr : Recasts r f) (hf : Settling f) (cs before : List Char)
    (h : StopsAt isSolid before ∨ StopsAt isSolid cs) : Resettled f cs (r.pass 0 before cs) := by
  induction cs using runs_induction isSolid generalizing before with
  | nil => exact ⟨.nil, fun _ => rfl, fun h => h⟩
  | other c cs hc ih =>
    -- a mark or a blank is written again
    have hrest := ih (c :: before) (Or.inl (stopsAt_cons hc))
    have hword : isWord c = false := (Bool.or_eq_false_iff.mp hc).1
    rw [Rule.pass_none (hr.ignores c hword _ _)]
    refine ⟨?_, fun hfixed => ?_, fun _ => stopsAt_cons hc⟩
    · by_cases hblank : isBlank c = true
      · rw [cut_blank hblank, cut_blank hblank]
        exact hrest.pieces
      · rw [cut_mark (Bool.eq_false_iff.mpr hblank) hc, cut_mark (Bool.eq_false_iff.mpr hblank) hc]
        exact .cons (.other hword .nil) hrest.pieces
    · rw [hrest.fixed fun x hx => hfixed x ?_]
      by_cases hblank : isBlank c = true
      · rwa [cut_blank hblank]
      · rw [cut_mark (Bool.eq_false_iff.mpr hblank) hc]
        exact List.mem_cons_of_mem _ hx
  | run w cs hne hw hcs ih =>
    -- the run is a piece of its own, so nothing in front of it is solid
    have hbefore : StopsAt isSolid before := h.resolve_right (not_stopsAt_run hne hw)
    have hrest := ih (w.reverse ++ before) (Or.inr hcs)
    have hpiece : ∀ {v}, Recast f w v →
        r.pass 0 before (w ++ cs) = v ++ r.pass 0 (w.reverse ++ before) cs := fun hv =>
      hr.piece hv (stopsAt_isWord hcs) (Or.inl (not_endsWord hbefore))
    obtain ⟨v, hv⟩ := exists_recast f w
    have hv' : v ≠ [] := by
      rintro rfl
      have hnil := hv.shade hf
      rw [List.map_nil, eq_comm, List.map_eq_nil_iff] at hnil
      exact hne hnil
    refine ⟨?_, fun hfixed => ?_, fun hstop => ?_⟩
    · rw [hpiece hv, cut_run hne hw hcs, cut_run hv' (hv.solid hf hw) (hrest.stops hcs)]
      exact .cons hv hrest.pieces
    · rw [cut_run hne hw hcs] at hfixed
      rw [hpiece (hfixed w List.mem_cons_self),
        hrest.fixed fun x hx => hfixed x (List.mem_cons_of_mem _ hx)]
    · exact absurd hstop (not_stopsAt_run hne hw)

/-! ## The two constants -/

/-- The word `pi` with small letters. -/
def smallPi (w : List Char) : List Char := if isPi w then ['p', 'i'] else w

/-- The word `e` as a small letter. -/
def smallEuler (w : List Char) : List Char := if isEuler w then ['e'] else w

theorem settling_smallPi : Settling smallPi := by
  intro w
  by_cases h : isPi w = true
  · exact Or.inr (Or.inl ⟨h, if_pos h⟩)
  · exact Or.inl (if_neg h)

theorem settling_smallEuler : Settling smallEuler := by
  intro w
  by_cases h : isEuler w = true
  · exact Or.inr (Or.inr ⟨h, if_pos h⟩)
  · exact Or.inl (if_neg h)

theorem piRule_recasts : Recasts piRule smallPi :=
  ⟨fun _ hc => piRule_ignores (isPlainStart_of_isWord hc), piRule_word⟩

theorem eulerRule_recasts : Recasts eulerRule smallEuler :=
  ⟨fun _ hc => eulerRule_ignores (isPlainStart_of_isWord hc), eulerRule_word⟩

/-- Both constants are settled, and settled for good. -/
theorem small_small (w : List Char) :
    (smallEuler (smallPi w) = w ∨ isPi w = true ∧ smallEuler (smallPi w) = ['p', 'i'] ∨
      isEuler w = true ∧ smallEuler (smallPi w) = ['e']) ∧
    smallPi (smallEuler (smallPi w)) = smallEuler (smallPi w) ∧
    smallEuler (smallEuler (smallPi w)) = smallEuler (smallPi w) := by
  by_cases hpi : isPi w = true
  · rw [show smallPi w = ['p', 'i'] from if_pos hpi]
    exact ⟨Or.inr (Or.inl ⟨hpi, by decide⟩), by decide⟩
  · rw [show smallPi w = w from if_neg hpi]
    by_cases he : isEuler w = true
    · rw [show smallEuler w = ['e'] from if_pos he]
      exact ⟨Or.inr (Or.inr ⟨he, rfl⟩), by decide⟩
    · rw [show smallEuler w = w from if_neg he]
      exact ⟨Or.inl rfl, if_neg hpi, if_neg he⟩

theorem Recast.comp (hf : Settling f) (h : Recast f x y) (h' : Recast g y z) :
    Recast (fun w => g (f w)) x z := by
  induction h generalizing z with
  | nil =>
    rw [h'.of_nil]
    exact .nil
  | other hc _ ih =>
    obtain ⟨z', rfl, hrest⟩ := h'.of_other hc
    exact .other hc (ih hrest)
  | word hne hw hx h ih =>
    obtain ⟨z', rfl, hrest⟩ := h'.of_word (hf.ne hne) (hf.word hw) (h.stops hf hx)
    exact .word hne hw hx (ih hrest)

/-- Where settled words are replaced by themselves, the text is. -/
theorem Recast.fixed (hf : Settling f) (h : Recast f x y) (hg : ∀ w, g (f w) = f w) :
    Recast g y y := by
  induction h with
  | nil => exact .nil
  | other hc _ ih => exact .other hc ih
  | @word w x y hne hw hx h ih =>
    have hword := Recast.word (f := g) (hf.ne hne) (hf.word hw) (h.stops hf hx) ih
    rwa [hg] at hword

/-- Pieces with both constants settled are left as they are. -/
theorem settled_pieces {ws vs us : List (List Char)} (h : List.Forall₂ (Recast smallPi) ws vs)
    (h' : List.Forall₂ (Recast smallEuler) vs us) :
    ∀ x ∈ us, Recast smallPi x x ∧ Recast smallEuler x x := by
  have hboth : Settling fun w => smallEuler (smallPi w) := fun w => (small_small w).1
  induction h generalizing us with
  | nil =>
    cases h'
    intro x hx
    cases hx
  | cons hxy _ ih =>
    cases h' with
    | cons hyz h' =>
      intro v hv
      rcases List.mem_cons.mp hv with rfl | hv
      · have hxz := hxy.comp settling_smallPi hyz
        exact ⟨hxz.fixed hboth fun w => (small_small w).2.1,
          hxz.fixed hboth fun w => (small_small w).2.2⟩
      · exact ih h' v hv

end InitialValue.Formula
