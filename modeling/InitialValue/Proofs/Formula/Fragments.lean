/-
  Refused fragments in the text of lexemes.

  A character that no refused fragment mentions is a wall: what occurs in a text occurs on one side
  of it (`occurs_wall`).  Blanks, brackets, digits and the marks of operators are walls, and where
  lexemes fit there is one between any two that could run together.  So a refused fragment occurs
  in a text only where it occurs in one of the lexemes (`occurs_spells`).

  In numbers and names of functions none occurs, nor in the permitted names.
-/
import InitialValue.Formula.Safety
import InitialValue.Proofs.Formula.Cutting
import Mathlib.Data.List.Find

namespace InitialValue.Formula

open InitialValue.Text

/-! ## Walls -/

namespace Fragment

/-- Could a character be part of the fragment? -/
def mentions : Fragment → Char → Bool
  | .literal ls, c => ls.any fun l => sameLetter l c
  | .anyOf ls, c => ls.contains c

theorem startsLike_wall {ls : List Char} {c : Char} (hc : ∀ l ∈ ls, sameLetter l c = false)
    (xs ys : List Char) : startsLike ls (xs ++ c :: ys) = startsLike ls xs := by
  induction ls generalizing xs with
  | nil => rfl
  | cons l ls ih =>
    have hls : ∀ l' ∈ ls, sameLetter l' c = false := fun l' hl' => hc l' (List.mem_cons_of_mem _ hl')
    cases xs with
    | nil =>
      show (sameLetter l c && startsLike ls ys) = false
      rw [hc l List.mem_cons_self, Bool.false_and]
    | cons x xs =>
      show (sameLetter l x && startsLike ls (xs ++ c :: ys)) = (sameLetter l x && startsLike ls xs)
      rw [ih hls]

theorem atFront_wall {f : Fragment} {c : Char} (hc : f.mentions c = false) (xs ys : List Char) :
    f.atFront (xs ++ c :: ys) = f.atFront xs := by
  cases f with
  | literal ls =>
    exact startsLike_wall (fun l hl => Bool.eq_false_iff.mpr fun h =>
      Bool.eq_false_iff.mp hc (List.any_eq_true.mpr ⟨l, hl, h⟩)) xs ys
  | anyOf ls =>
    cases xs with
    | nil => exact hc
    | cons x xs => rfl

/-- **What occurs around a wall occurs on one side of it.** -/
theorem occurs_wall {f : Fragment} (hf : f ≠ .literal []) {c : Char} (hc : f.mentions c = false)
    (xs ys : List Char) : f.occurs (xs ++ c :: ys) = (f.occurs xs || f.occurs ys) := by
  induction xs with
  | nil =>
    have hfront : f.atFront (c :: ys) = false := by
      rw [← List.nil_append (c :: ys), atFront_wall hc]
      cases f with
      | literal ls =>
        cases ls with
        | nil => exact absurd rfl hf
        | cons l ls => rfl
      | anyOf ls => rfl
    show (f.atFront (c :: ys) || f.occurs ys) = (false || f.occurs ys)
    rw [hfront]
  | cons x xs ih =>
    show (f.atFront (x :: xs ++ c :: ys) || f.occurs (xs ++ c :: ys)) =
      (f.atFront (x :: xs) || f.occurs xs || f.occurs ys)
    rw [atFront_wall hc, ih, Bool.or_assoc]

end Fragment

/-- A character that is part of no refused fragment. -/
def isWall (c : Char) : Bool := refusedFragments.all fun f => !f.1.mentions c

theorem mentions_of_isWall {c : Char} (h : isWall c = true) {f : Fragment × String}
    (hf : f ∈ refusedFragments) : f.1.mentions c = false := by
  have hc := List.all_eq_true.mp h f hf
  rwa [Bool.not_eq_true'] at hc

theorem refused_ne {f : Fragment × String} (hf : f ∈ refusedFragments) : f.1 ≠ .literal [] := by
  have hall : (refusedFragments.all fun f => f.1 != .literal []) = true := by decide
  exact bne_iff_ne.mp (List.all_eq_true.mp hall f hf)

/-! ## Which characters are walls -/

/-- The characters that refused fragments are written with. -/
def fragmentChars : List Char := refusedFragments.flatMap fun f =>
  match f.1 with
  | .literal ls => ls
  | .anyOf ls => ls

theorem isWall_of_not_word {c : Char} (hc : isWord c = false) (hne : c ∉ fragmentChars) :
    isWall c = true := by
  refine List.all_eq_true.mpr fun f hf => ?_
  rw [Bool.not_eq_true', Bool.eq_false_iff]
  intro h
  refine hne (List.mem_flatMap.mpr ⟨f, hf, ?_⟩)
  obtain ⟨f, message⟩ := f
  cases f with
  | literal ls =>
    obtain ⟨l, hl, hlc⟩ := List.any_eq_true.mp h
    rcases sameLetter_cases hlc with rfl | hword
    · exact hl
    · rw [hc] at hword
      cases hword
  | anyOf ls => exact List.contains_iff_mem.mp h

theorem isWall_of_isBlank {c : Char} (hc : isBlank c = true) : isWall c = true := by
  have hall : (fragmentChars.all fun d => !isBlank d) = true := by decide
  refine isWall_of_not_word (isWord_of_isBlank hc) fun hmem => ?_
  have hd := List.all_eq_true.mp hall c hmem
  rw [hc] at hd
  cases hd

theorem isWall_of_isDigit {c : Char} (hc : c.isDigit = true) : isWall c = true := by
  have hall : ∀ n < 10, isWall (Char.ofNat (48 + n)) = true := by decide
  unfold Char.isDigit at hc
  simp only [Bool.and_eq_true, decide_eq_true_eq, ge_iff_le, UInt32.le_iff_toNat_le] at hc
  have hval : c.toNat = c.val.toNat := rfl
  have h0 : '0'.val.toNat = 48 := rfl
  have h9 : '9'.val.toNat = 57 := rfl
  have hn := hall (c.toNat - 48) (by omega)
  rwa [show 48 + (c.toNat - 48) = c.toNat by omega, Char.ofNat_toNat] at hn

theorem isWall_mark {c : Char} (hc : c ∈ ['(', ')', ',', '+', '-', '*', '/', '^']) :
    isWall c = true := by
  have hall : (['(', ')', ',', '+', '-', '*', '/', '^'].all isWall) = true := by decide
  exact List.all_eq_true.mp hall c hc

/-! ## Texts of lexemes -/

/-- A word character, a point or a wall. -/
def isInked (c : Char) : Bool := isWord c || c == '.' || isWall c

theorem isInked_of_isPlainWord {c : Char} (h : isPlainWord c = true) : isInked c = true := by
  simp [isInked, isWord_of_isPlainWord h]

theorem isInked_of_isWall {c : Char} (h : isWall c = true) : isInked c = true := by
  simp [isInked, h]

theorem Lexeme.inked (l : Lexeme) {c : Char} (hc : c ∈ l.text) : isInked c = true := by
  cases l with
  | number n =>
    rcases n.mem hc with h | rfl | rfl
    · simp [isInked, Numeral.word_or_point_of_isBodyChar h]
    · exact isInked_of_isWall (isWall_mark (by simp))
    · exact isInked_of_isWall (isWall_mark (by simp))
  | name w => exact isInked_of_isPlainWord (w.mem hc)
  | call f =>
    rcases List.mem_append.mp hc with hc | hc
    · exact isInked_of_isPlainWord (FunctionName.mem f hc)
    · rw [List.mem_singleton.mp hc]
      exact isInked_of_isWall (isWall_mark (by simp))
  | opening =>
    rw [List.mem_singleton.mp hc]
    exact isInked_of_isWall (isWall_mark (by simp))
  | closing =>
    rw [List.mem_singleton.mp hc]
    exact isInked_of_isWall (isWall_mark (by simp))
  | comma =>
    rw [List.mem_singleton.mp hc]
    exact isInked_of_isWall (isWall_mark (by simp))
  | arith op =>
    rw [List.mem_singleton.mp hc]
    exact isInked_of_isWall (isWall_mark (by cases op <;> decide))
  | power doubled =>
    refine isInked_of_isWall (isWall_mark ?_)
    rcases Phrase.mem_powerSign hc with ⟨rfl, -⟩ | ⟨rfl, -⟩ <;> simp
  | joint s => cases hc

variable {ok : Char → Bool} {l : Lexeme} {ls : List Lexeme} {g cs : List Char}

theorem Spells.inked (h : Spells isBlank ls cs) {c : Char} (hc : c ∈ cs) : isInked c = true := by
  induction h with
  | nil hg => exact isInked_of_isWall (isWall_of_isBlank (hg c hc))
  | cons hg h' ih =>
    rename_i g l ls cs
    rcases List.mem_append.mp hc with hc | hc
    · exact isInked_of_isWall (isWall_of_isBlank (hg c hc))
    · rcases List.mem_append.mp hc with hc | hc
      · exact l.inked hc
      · exact ih hc

section Refused

variable {f : Fragment × String} (hf : f ∈ refusedFragments)
include hf

theorem occurs_walls (hg : ∀ c ∈ g, isWall c = true) (cs : List Char) :
    f.1.occurs (g ++ cs) = f.1.occurs cs := by
  induction g with
  | nil => rfl
  | cons c g ih =>
    have hc := mentions_of_isWall (hg c List.mem_cons_self) hf
    have hwall := Fragment.occurs_wall (refused_ne hf) hc [] (g ++ cs)
    rw [List.nil_append] at hwall
    rw [List.cons_append, hwall, ih fun d hd => hg d (List.mem_cons_of_mem _ hd)]
    rfl

theorem occurs_gap (hg : ∀ c ∈ g, isBlank c = true) (cs : List Char) :
    f.1.occurs (g ++ cs) = f.1.occurs cs :=
  occurs_walls hf (fun c hc => isWall_of_isBlank (hg c hc)) cs

/-- In front of a text that starts with a wall, a piece stands alone. -/
theorem occurs_stops {xs : List Char} (hcs : StopsAt (fun c => !isWall c) cs) :
    f.1.occurs (xs ++ cs) = (f.1.occurs xs || f.1.occurs cs) := by
  rcases cs with _ | ⟨c, cs⟩
  · rw [List.append_nil]
    exact (Bool.or_false _).symm
  · have hwall : isWall c = true := by
      have hstop := hcs c rfl
      rwa [Bool.not_eq_false'] at hstop
    have hc := mentions_of_isWall hwall hf
    have hfront := Fragment.occurs_wall (refused_ne hf) hc [] cs
    rw [List.nil_append] at hfront
    rw [Fragment.occurs_wall (refused_ne hf) hc, hfront]
    rfl

/-- Behind a wall, a text stands alone. -/
theorem occurs_behind (xs : List Char) {c : Char} (hc : isWall c = true) (cs : List Char) :
    f.1.occurs (xs ++ [c] ++ cs) = (f.1.occurs (xs ++ [c]) || f.1.occurs cs) := by
  have hmentions := mentions_of_isWall hc hf
  rw [List.append_assoc, List.singleton_append, Fragment.occurs_wall (refused_ne hf) hmentions,
    Fragment.occurs_wall (refused_ne hf) hmentions]
  show (f.1.occurs xs || f.1.occurs cs) = (f.1.occurs xs || false || f.1.occurs cs)
  rw [Bool.or_false]

/-- **A lexeme stands alone**, as far as fragments are concerned. -/
theorem occurs_lexeme (h : Spells isBlank ls cs) (hchain : Chained (l :: ls)) :
    f.1.occurs (l.text ++ cs) = (f.1.occurs l.text || f.1.occurs cs) := by
  have hwordy : l.isWordy = true →
      f.1.occurs (l.text ++ cs) = (f.1.occurs l.text || f.1.occurs cs) := by
    intro hl
    refine occurs_stops hf fun c hc => ?_
    obtain ⟨rest, hrest⟩ := List.head?_eq_some_iff.mp hc
    have hclear : (isWord c || c == '.') = false := clear_rest h hchain hl c hc
    have hinked := h.inked (c := c) (by rw [hrest]; exact List.mem_cons_self)
    rw [isInked, hclear, Bool.false_or] at hinked
    show (!isWall c) = false
    rw [hinked]
    rfl
  cases l with
  | number n => exact hwordy rfl
  | name w => exact hwordy rfl
  | call g => exact occurs_behind hf _ (isWall_mark (by simp)) cs
  | opening => exact occurs_behind hf [] (isWall_mark (by simp)) cs
  | closing => exact occurs_behind hf [] (isWall_mark (by simp)) cs
  | comma => exact occurs_behind hf [] (isWall_mark (by simp)) cs
  | arith op => exact occurs_behind hf [] (isWall_mark (by cases op <;> decide)) cs
  | power doubled =>
    cases doubled
    · exact occurs_behind hf [] (isWall_mark (by simp)) cs
    · exact occurs_behind hf ['*'] (isWall_mark (by simp)) cs
  | joint s => rfl

/-- **A refused fragment occurs in a text where it occurs in a lexeme.** -/
theorem occurs_spells (h : Spells isBlank ls cs) (hchain : Chained ls) :
    f.1.occurs cs = ls.any fun l => f.1.occurs l.text := by
  induction h with
  | nil hg =>
    rename_i g
    have hnone := occurs_gap hf hg []
    rw [List.append_nil] at hnone
    exact hnone
  | cons hg h ih =>
    rw [occurs_gap hf hg, occurs_lexeme hf h hchain, ih (List.IsChain.tail hchain), List.any_cons]

end Refused

/-! ## Texts in which no fragment occurs -/

/-- No refused fragment occurs in a text. -/
def Harmless (cs : List Char) : Prop := ∀ f ∈ refusedFragments, f.1.occurs cs = false

theorem refusedIn?_eq_none {cs : List Char} (h : Harmless cs) : refusedIn? cs = none := by
  rw [refusedIn?, Option.map_eq_none_iff, List.find?_eq_none]
  intro f hf
  rw [h f hf]
  decide

/-- A character that is no fragment by itself. -/
def isLone (c : Char) : Bool := refusedFragments.all fun f => !f.1.occurs [c]

/-- Between any two characters of the text, there is a wall or one of them is one. -/
inductive Scattered : List Char → Prop
  | nil : Scattered []
  | wall {c : Char} {cs : List Char} : isWall c = true → Scattered cs → Scattered (c :: cs)
  | lone {c : Char} {cs : List Char} :
      isLone c = true → StopsAt (fun d => !isWall d) cs → Scattered cs → Scattered (c :: cs)

/-- **In a scattered text no fragment occurs.** -/
theorem Scattered.harmless {cs : List Char} (h : Scattered cs) : Harmless cs := by
  intro f hf
  induction h with
  | nil => rfl
  | wall hc hrest ih =>
    rename_i c cs
    have hoccurs := occurs_behind hf [] hc cs
    have hfront := Fragment.occurs_wall (refused_ne hf) (mentions_of_isWall hc hf) [] []
    show f.1.occurs ([] ++ [c] ++ cs) = false
    rw [hoccurs, ih, hfront]
    rfl
  | lone hc hstop hrest ih =>
    rename_i c cs
    have hlone := List.all_eq_true.mp hc f hf
    rw [Bool.not_eq_true'] at hlone
    show f.1.occurs ([c] ++ cs) = false
    rw [occurs_stops hf hstop, hlone, ih]
    rfl

theorem scattered_digits {ds : List Char} (h : ∀ d ∈ ds, d.isDigit = true) : Scattered ds := by
  induction ds with
  | nil => exact .nil
  | cons d ds ih =>
    exact .wall (isWall_of_isDigit (h d List.mem_cons_self))
      (ih fun x hx => h x (List.mem_cons_of_mem _ hx))

theorem stopsAt_run {run : List Char} (h : DigitRun run) (cs : List Char) :
    StopsAt (fun d => !isWall d) (run ++ cs) := by
  obtain ⟨d, rest, rfl, hd⟩ := h.head
  exact stopsAt_cons (by rw [isWall_of_isDigit hd]; rfl)

theorem scattered_run {run cs : List Char} (h : DigitRun run) (hcs : Scattered cs) :
    Scattered (run ++ cs) := by
  have hunder : isLone '_' = true := by decide
  induction h with
  | single hd => exact .wall (isWall_of_isDigit hd) hcs
  | digit hd _ ih => exact .wall (isWall_of_isDigit hd) ih
  | grouped hd hrun ih => exact .wall (isWall_of_isDigit hd) (.lone hunder (stopsAt_run hrun _) ih)

theorem scattered_exponent {x : List Char} (h : Decimal.IsExponent x) : Scattered x := by
  rcases h with rfl | ⟨mark, sign, run, hmark, hsign, hrun, rfl⟩
  · exact .nil
  have hlone : isLone mark = true := by rcases hmark with rfl | rfl <;> decide
  have hscattered : Scattered run := by
    rw [← List.append_nil run]
    exact scattered_run hrun .nil
  have hplus : isWall '+' = true := isWall_mark (by simp)
  have hminus : isWall '-' = true := isWall_mark (by simp)
  rcases hsign with rfl | rfl | rfl
  · rw [List.nil_append]
    have hstop := stopsAt_run hrun []
    rw [List.append_nil] at hstop
    exact .lone hlone hstop hscattered
  · exact .lone hlone (stopsAt_cons (by rw [hplus]; rfl)) (.wall hplus hscattered)
  · exact .lone hlone (stopsAt_cons (by rw [hminus]; rfl)) (.wall hminus hscattered)

/-- **In numbers no fragment occurs.** -/
theorem Numeral.harmless (n : Numeral) : Harmless n.text := by
  obtain ⟨w, f, x, htext, hw, hf, hx, -⟩ := n.shape
  have hpoint : isLone '.' = true := by decide
  have hfraction : Scattered (f ++ x) := by
    rcases hf with rfl | ⟨run, hrun, rfl⟩
    · exact scattered_exponent hx
    · exact .lone hpoint (stopsAt_run hrun _) (scattered_run hrun (scattered_exponent hx))
  rw [htext]
  rcases hw with rfl | hw
  · exact hfraction.harmless
  · exact (scattered_run hw hfraction).harmless

/-- In what introduces a call no fragment occurs. -/
theorem FunctionName.harmless (f : FunctionName) : Harmless (f.val.toList ++ ['(']) := by
  have hall : (functionNames.all fun s =>
      refusedFragments.all fun f => !f.1.occurs (s.toList ++ ['('])) = true := by
    decide +kernel
  intro r hr
  have hf := List.all_eq_true.mp
    (List.all_eq_true.mp hall f.val (List.contains_iff_mem.mp f.property)) r hr
  rwa [Bool.not_eq_true'] at hf

/-! ## Permitted names -/

/-- The names that right-hand sides are written with: the time, the state or one of its components,
    and the constants. -/
def Name.permitted (w : Name) : Bool :=
  match w.text with
  | ['t'] => true
  | 'y' :: ds => ds.all Char.isDigit
  | cs => isPi cs || isEuler cs

/-- Up to ASCII letters, the letter itself or its capital counts as a letter. -/
theorem sameLetter_plain {c : Char} (hc : isPlainWord c = true) :
    (sameLetter 'p' c = true → c = 'p' ∨ c = 'P') ∧ (sameLetter 'i' c = true → c = 'i' ∨ c = 'I') ∧
      (sameLetter 'e' c = true → c = 'e' ∨ c = 'E') := by
  have hall : ∀ n < 128, (sameLetter 'p' (Char.ofNat n) = true → Char.ofNat n = 'p' ∨ Char.ofNat n = 'P') ∧
      (sameLetter 'i' (Char.ofNat n) = true → Char.ofNat n = 'i' ∨ Char.ofNat n = 'I') ∧
      (sameLetter 'e' (Char.ofNat n) = true → Char.ofNat n = 'e' ∨ Char.ofNat n = 'E') := by
    decide
  have hn := hall c.toNat (toNat_of_isPlainWord hc)
  rwa [Char.ofNat_toNat] at hn

/-- **In permitted names no fragment occurs.** -/
theorem Name.harmless {w : Name} (h : w.permitted = true) : Harmless w.text := by
  have ht : isLone 't' = true := by decide
  have hy : isLone 'y' = true := by decide
  have hplain : ∀ c ∈ w.text, isPlainWord c = true := fun c hc => w.mem hc
  unfold permitted at h
  split at h
  · rename_i htext
    rw [htext]
    exact (Scattered.lone ht stopsAt_nil .nil).harmless
  · rename_i ds htext
    have hds : ∀ d ∈ ds, d.isDigit = true := fun d hd => List.all_eq_true.mp h d hd
    rw [htext]
    -- what touches the letter is a digit, and no fragment has one
    refine (Scattered.lone hy (fun d hd => ?_) (scattered_digits hds)).harmless
    obtain ⟨rest, rfl⟩ := List.head?_eq_some_iff.mp hd
    show (!isWall d) = false
    rw [isWall_of_isDigit (hds d List.mem_cons_self)]
    rfl
  · have hpi : (['p', 'P'].all fun a => ['i', 'I'].all fun b =>
        refusedFragments.all fun f => !f.1.occurs [a, b]) = true := by decide
    have he : (['e', 'E'].all isLone) = true := by decide
    rcases (Bool.or_eq_true _ _).mp h with h | h
    · unfold isPi at h
      split at h
      · rename_i a b htext
        rw [htext] at hplain ⊢
        obtain ⟨ha, hb⟩ := (Bool.and_eq_true _ _).mp h
        have hp := (sameLetter_plain (hplain a (by simp))).1 ha
        have hi := (sameLetter_plain (hplain b (by simp))).2.1 hb
        intro f hf
        have hoccurs := List.all_eq_true.mp (List.all_eq_true.mp (List.all_eq_true.mp hpi a
          (by simpa using hp)) b (by simpa using hi)) f hf
        rwa [Bool.not_eq_true'] at hoccurs
      · cases h
    · unfold isEuler at h
      split at h
      · rename_i a htext
        rw [htext] at hplain ⊢
        have ha := (sameLetter_plain (hplain a (by simp))).2.2 h
        have hlone := List.all_eq_true.mp he a (by simpa using ha)
        exact (Scattered.lone hlone stopsAt_nil .nil).harmless
      · cases h

/-! ## Phrases -/

namespace Phrase

/-- Are all names in a phrase permitted? -/
def permitted : Phrase → Bool
  | number _ => true
  | name w => w.permitted
  | call _ _ args _ => args.permitted
  | bare _ _ => true
  | group _ p _ => p.permitted
  | power b _ _ _ e => b.permitted && e.permitted
  | minus _ p => p.permitted
  | binary _ x _ _ y => x.permitted && y.permitted
  | joint x y => x.permitted && y.permitted
  | comma x _ _ y => x.permitted && y.permitted

theorem name_permitted {p : Phrase} (h : p.permitted = true) {w : Name}
    (hw : .name w ∈ p.lexemes) : w.permitted = true := by
  induction p with
  | number n => cases List.mem_singleton.mp hw
  | name v =>
    cases List.mem_singleton.mp hw
    exact h
  | call f g args g' ih => exact ih h (by simpa [lexemes] using hw)
  | bare f g => simp [lexemes] at hw
  | group g p g' ih => exact ih h (by simpa [lexemes] using hw)
  | power b g doubled g' e ihb ihe =>
    have hparts := (Bool.and_eq_true _ _).mp h
    have hcases : .name w ∈ b.lexemes ∨ .name w ∈ e.lexemes := by simpa [lexemes] using hw
    exact hcases.elim (ihb hparts.1) (ihe hparts.2)
  | minus g p ih => exact ih h (by simpa [lexemes] using hw)
  | binary op x g g' y ihx ihy =>
    have hparts := (Bool.and_eq_true _ _).mp h
    have hcases : .name w ∈ x.lexemes ∨ .name w ∈ y.lexemes := by simpa [lexemes] using hw
    exact hcases.elim (ihx hparts.1) (ihy hparts.2)
  | joint x y ihx ihy =>
    have hparts := (Bool.and_eq_true _ _).mp h
    have hcases : .name w ∈ x.lexemes ∨ .name w ∈ y.lexemes := by simpa [lexemes] using hw
    exact hcases.elim (ihx hparts.1) (ihy hparts.2)
  | comma x g g' y ihx ihy =>
    have hparts := (Bool.and_eq_true _ _).mp h
    have hcases : .name w ∈ x.lexemes ∨ .name w ∈ y.lexemes := by simpa [lexemes] using hw
    exact hcases.elim (ihx hparts.1) (ihy hparts.2)

/-- The mark of an operator is no fragment. -/
theorem harmless_mark {c : Char} (hc : c ∈ ['(', ')', ',', '+', '-', '*', '/', '^']) :
    Harmless [c] := (Scattered.wall (isWall_mark hc) .nil).harmless

theorem harmless_lexeme {p : Phrase} (h : p.permitted = true) {l : Lexeme} (hl : l ∈ p.lexemes) :
    Harmless l.text := by
  cases l with
  | number n => exact n.harmless
  | name w => exact Name.harmless (name_permitted h hl)
  | call f => exact FunctionName.harmless f
  | opening => exact harmless_mark (by simp)
  | closing => exact harmless_mark (by simp)
  | comma => exact harmless_mark (by simp)
  | arith op => exact harmless_mark (by cases op <;> decide)
  | power doubled =>
    have hstar : isWall '*' = true := isWall_mark (by simp)
    cases doubled
    · exact harmless_mark (by simp)
    · exact (Scattered.wall hstar (.wall hstar .nil)).harmless
  | joint s => exact fun f _ => rfl

/-- A refused fragment occurs in the text of a phrase where it occurs in a lexeme. -/
theorem occurs_text {p : Phrase} (h : p.Sound) (g g' : Gap) {f : Fragment × String}
    (hf : f ∈ refusedFragments) : f.1.occurs (g.text ++ (p.text ++ g'.text)) =
      p.lexemes.any fun l => f.1.occurs l.text := by
  have hspells := (p.spells.append (Spells.nil g'.blank)).gap g.blank
  rw [List.append_nil] at hspells
  exact occurs_spells hf hspells (p.chain h.proper h.uncaught)

/-- **A phrase with permitted names passes the check.** -/
theorem checkSafety_text {p : Phrase} (h : p.Sound) (hp : p.permitted = true) (g g' : Gap) :
    checkSafety (g.text ++ (p.text ++ g'.text)) = .ok () := by
  have hharmless : Harmless (g.text ++ (p.text ++ g'.text)) := by
    intro f hf
    rw [occurs_text h g g' hf, List.any_eq_false]
    intro l hl
    rw [harmless_lexeme hp hl f hf]
    decide
  unfold checkSafety
  rw [refusedIn?_eq_none hharmless]

end Phrase

end InitialValue.Formula
