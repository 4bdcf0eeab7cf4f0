/-
  The ink of a text.

  Most passes over formula text look past blanks, so what they find does not depend on how wide the
  gaps are.  `inks` keeps of a text the characters that are not blank, and of each whether it stands
  apart from the one in front.  The same ink with single spaces is `typeset`, which is what the last
  passes make of a text (`trim_blanks`).

  Ink falls into pieces (`pieces`): runs of characters that words and numbers are made of, and
  single marks.  `cut` gives the pieces of a text, and the equations beside it say what they are, one
  piece at a time.
-/
import InitialValue.Proofs.Formula.NormalText

namespace InitialValue.Formula

open InitialValue.Text

/-! ## Ink -/

/-- A character that is not blank, and whether it stands apart from the one in front of it. -/
structure Ink where
  apart : Bool
  char : Char

/-- The ink of a text; the first argument tells whether blanks stand in front of the text. -/
def inks : Bool → List Char → List Ink
  | _, [] => []
  | apart, c :: cs => if isBlank c then inks true cs else ⟨apart, c⟩ :: inks false cs

/-- Ink written down, with a space in front of what stands apart. -/
def drawn : List Ink → List Char
  | [] => []
  | a :: is => if a.apart then ' ' :: a.char :: drawn is else a.char :: drawn is

/-- Ink written down, without a space in front. -/
def typeset : List Ink → List Char
  | [] => []
  | a :: is => a.char :: drawn is

theorem inks_blank {c : Char} (hc : isBlank c = true) (apart : Bool) (cs : List Char) :
    inks apart (c :: cs) = inks true cs := by
  rw [inks, if_pos hc]

theorem inks_cons {c : Char} (hc : isBlank c = false) (apart : Bool) (cs : List Char) :
    inks apart (c :: cs) = ⟨apart, c⟩ :: inks false cs := by
  rw [inks, if_neg (by rw [hc]; decide)]

/-- Behind blanks, everything stands apart. -/
theorem inks_gap {g : List Char} (hg : ∀ c ∈ g, isBlank c = true) (apart : Bool) (cs : List Char) :
    inks apart (g ++ cs) = inks (apart || !g.isEmpty) cs := by
  induction g generalizing apart with
  | nil => rw [List.nil_append, List.isEmpty_nil, Bool.not_true, Bool.or_false]
  | cons c g ih =>
    rw [List.cons_append, inks_blank (hg c List.mem_cons_self),
      ih fun x hx => hg x (List.mem_cons_of_mem _ hx)]
    simp

/-- A text is the blanks at its front and the rest. -/
theorem exists_gap (cs : List Char) :
    ∃ g : List Char, (∀ c ∈ g, isBlank c = true) ∧ cs = g ++ skipBlanks cs :=
  ⟨cs.takeWhile isBlank, fun _ hc => mem_takeWhile hc, (List.takeWhile_append_dropWhile).symm⟩

/-- The first ink of a text with blanks in front stands apart. -/
theorem apart_of_head {a : Ink} {cs : List Char} (h : (inks true cs).head? = some a) :
    a.apart = true := by
  induction cs with
  | nil => cases h
  | cons c cs ih =>
    by_cases hc : isBlank c = true
    · rw [inks_blank hc] at h
      exact ih h
    · rw [inks_cons (Bool.eq_false_iff.mpr hc)] at h
      cases h
      rfl

theorem not_blank_of_mem_inks {a : Ink} {apart : Bool} {cs : List Char} (h : a ∈ inks apart cs) :
    isBlank a.char = false := by
  induction cs generalizing apart with
  | nil => cases h
  | cons c cs ih =>
    by_cases hc : isBlank c = true
    · rw [inks_blank hc] at h
      exact ih h
    · rw [inks_cons (Bool.eq_false_iff.mpr hc)] at h
      rcases List.mem_cons.mp h with rfl | h
      · exact Bool.eq_false_iff.mpr hc
      · exact ih h

theorem drawn_cons (a : Ink) (is : List Ink) :
    drawn (a :: is) = (if a.apart then [' '] else []) ++ typeset (a :: is) := by
  rw [drawn]
  split <;> rfl

/-- Written ink reads as the same ink. -/
theorem inks_drawn {is : List Ink} (h : ∀ a ∈ is, isBlank a.char = false) :
    inks false (drawn is) = is := by
  induction is with
  | nil => rfl
  | cons a is ih =>
    have hchar := h a List.mem_cons_self
    have hrest := ih fun x hx => h x (List.mem_cons_of_mem _ hx)
    obtain ⟨apart, c⟩ := a
    cases apart with
    | false =>
      show inks false (c :: drawn is) = _
      rw [inks_cons hchar, hrest]
    | true =>
      show inks false (' ' :: c :: drawn is) = _
      rw [inks_blank (by decide), inks_cons hchar, hrest]

theorem inks_typeset {is : List Ink} (h : ∀ a ∈ is, isBlank a.char = false)
    (hhead : ∀ a, is.head? = some a → a.apart = true) : inks true (typeset is) = is := by
  rcases is with _ | ⟨⟨apart, c⟩, is⟩
  · rfl
  · have happart : apart = true := hhead _ rfl
    show inks true (c :: drawn is) = _
    rw [inks_cons (h _ List.mem_cons_self), inks_drawn fun x hx => h x (List.mem_cons_of_mem _ hx),
      happart]

/-! ## Single spaces -/

theorem dropEnd_cons {c : Char} (hc : isBlank c = false) (cs : List Char) :
    dropEnd (c :: cs) = c :: dropEnd cs := dropEnd_append hc [] cs

/-- Without the blanks at its end, what the pass over blanks writes is the ink. -/
theorem dropEnd_blanksRule (cs before : List Char) :
    dropEnd (blanksRule.pass 0 before cs) = drawn (inks false cs) := by
  induction cs using runs_induction isBlank generalizing before with
  | nil => rfl
  | other c cs hc ih =>
    rw [Rule.pass_none (blanksRule_ignores hc _ _), dropEnd_cons hc, ih, inks_cons hc]
    rfl
  | run g cs hne hg hcs ih =>
    obtain ⟨before', hpass⟩ := pass_run hne hg before hcs
    rw [hpass, inks_gap hg, List.isEmpty_eq_false_iff.mpr hne, Bool.not_false, Bool.or_true]
    rcases cs with _ | ⟨c, cs⟩
    · rw [Rule.pass_nil]
      exact dropEnd_blanks (g := [' ']) (forall_mem_of_all (by decide)) []
    · have hc : isBlank c = false := hcs c rfl
      have hrest := ih before'
      rw [Rule.pass_none (blanksRule_ignores hc _ _), dropEnd_cons hc, inks_cons hc] at hrest
      have hspace : ∀ xs, dropEnd (' ' :: c :: xs) = ' ' :: c :: dropEnd xs :=
        dropEnd_append hc [' ']
      rw [Rule.pass_none (blanksRule_ignores hc _ _), hspace, (List.cons.inj hrest).2, inks_cons hc]
      rfl

/-- **Runs of blanks made single spaces and the ends trimmed**, what is left is the ink. -/
theorem trim_blanks (cs : List Char) :
    trim (blanksRule.apply cs) = typeset (inks true cs) := by
  have hpass : ∀ before, dropEnd (skipBlanks (blanksRule.pass 0 before cs)) =
      typeset (inks true cs) := by
    induction cs using runs_induction isBlank with
    | nil => exact fun _ => rfl
    | other c cs hc ih =>
      intro before
      have hend := dropEnd_blanksRule (c :: cs) before
      rw [Rule.pass_none (blanksRule_ignores hc _ _), inks_cons hc] at hend
      rw [Rule.pass_none (blanksRule_ignores hc _ _), skipBlanks_cons hc, hend, inks_cons hc]
      rfl
    | run g cs hne hg hcs ih =>
      intro before
      obtain ⟨before', hpass⟩ := pass_run hne hg before hcs
      have hskip : ∀ xs, skipBlanks (' ' :: xs) = skipBlanks xs :=
        skipBlanks_blanks (g := [' ']) (forall_mem_of_all (by decide))
      rw [hpass, hskip, ih, inks_gap hg, Bool.true_or]
  rw [trim_eq]
  exact hpass []

/-! ## Pieces -/

/-- A character that words and numbers are made of. -/
def isSolid (c : Char) : Bool := isWord c || c == '.'

/-- Does some ink hold on to what comes behind it? -/
def Ink.holds (a : Ink) : List Ink → Bool
  | b :: _ => isSolid a.char && isSolid b.char && !b.apart
  | [] => false

/-- Puts a character in front of pieces, on to the first one or as a piece of its own. -/
def glue (holds : Bool) (c : Char) : List (List Char) → List (List Char)
  | w :: ws => if holds then (c :: w) :: ws else [c] :: w :: ws
  | [] => [[c]]

/-- The pieces of some ink: runs of solid characters that touch, and single marks. -/
def pieces : List Ink → List (List Char)
  | [] => []
  | a :: is => glue (a.holds is) a.char (pieces is)

/-- The pieces of a text. -/
def cut (cs : List Char) : List (List Char) := pieces (inks true cs)

theorem glue_false (c : Char) (ws : List (List Char)) : glue false c ws = [c] :: ws := by
  cases ws <;> rfl

/-- The first piece starts with the first ink. -/
theorem pieces_cons (a : Ink) (is : List Ink) :
    ∃ w ws, pieces (a :: is) = (a.char :: w) :: ws := by
  rw [pieces]
  cases pieces is with
  | nil => exact ⟨_, _, rfl⟩
  | cons w ws => cases a.holds is <;> exact ⟨_, _, rfl⟩

/-- What stands in front of the first piece does not matter. -/
theorem pieces_inks (apart : Bool) (cs : List Char) : pieces (inks apart cs) = cut cs := by
  rcases cs with _ | ⟨c, cs⟩
  · rfl
  · by_cases hc : isBlank c = true
    · rw [cut, inks_blank hc, inks_blank hc]
    · rw [cut, inks_cons (Bool.eq_false_iff.mpr hc), inks_cons (Bool.eq_false_iff.mpr hc)]
      rfl

theorem isBlank_of_isSolid {c : Char} (h : isSolid c = true) : isBlank c = false := by
  rcases Bool.or_eq_true _ _ ▸ h with hword | hpoint
  · exact isBlank_of_isWord hword
  · rw [beq_iff_eq.mp hpoint]
    exact isBlank_mark (by decide)

theorem isSolid_of_isBlank {c : Char} (h : isBlank c = true) : isSolid c = false := by
  rw [Bool.eq_false_iff]
  intro hsolid
  rw [isBlank_of_isSolid hsolid] at h
  cases h

theorem holds_mark {a : Ink} (h : isSolid a.char = false) (is : List Ink) : a.holds is = false := by
  cases is <;> simp [Ink.holds, h]

theorem cut_blank {c : Char} (hc : isBlank c = true) (cs : List Char) : cut (c :: cs) = cut cs := by
  rw [cut, inks_blank hc, cut]

theorem cut_mark {c : Char} (hc : isBlank c = false) (hmark : isSolid c = false) (cs : List Char) :
    cut (c :: cs) = [c] :: cut cs := by
  rw [cut, inks_cons hc, pieces, holds_mark hmark, glue_false, pieces_inks]

/-- Nothing holds on to what does not start with a solid character. -/
theorem not_holds {cs : List Char} (hcs : StopsAt isSolid cs) (a : Ink) :
    a.holds (inks false cs) = false := by
  rcases cs with _ | ⟨d, cs⟩
  · rfl
  by_cases hd : isBlank d = true
  · rw [inks_blank hd]
    rcases his : inks true cs with _ | ⟨b, is⟩
    · rfl
    · have happart : b.apart = true := apart_of_head (by rw [his]; rfl)
      simp [Ink.holds, happart]
  · rw [inks_cons (Bool.eq_false_iff.mpr hd)]
    simp [Ink.holds, hcs d rfl]

/-- In front of what does not start with a solid character, a run of them is a piece. -/
theorem cut_run {w cs : List Char} (hne : w ≠ []) (hw : ∀ c ∈ w, isSolid c = true)
    (hcs : StopsAt isSolid cs) : cut (w ++ cs) = w :: cut cs := by
  induction w with
  | nil => exact absurd rfl hne
  | cons c w ih =>
    have hc := isBlank_of_isSolid (hw c List.mem_cons_self)
    rw [cut, List.cons_append, inks_cons hc, pieces, pieces_inks]
    rcases w with _ | ⟨d, w⟩
    · rw [List.nil_append, not_holds hcs, glue_false]
    · have hd := hw d (by simp)
      rw [ih (List.cons_ne_nil _ _) fun x hx => hw x (List.mem_cons_of_mem _ hx), List.cons_append,
        inks_cons (isBlank_of_isSolid hd)]
      simp [Ink.holds, glue, hw c List.mem_cons_self, hd]

theorem cut_gap {g : List Char} (hg : ∀ c ∈ g, isBlank c = true) (cs : List Char) :
    cut (g ++ cs) = cut cs := by
  induction g with
  | nil => rfl
  | cons c g ih =>
    rw [List.cons_append, cut_blank (hg c List.mem_cons_self),
      ih fun x hx => hg x (List.mem_cons_of_mem _ hx)]

/-- Behind its blanks, a text starts like its first piece. -/
theorem head_skipBlanks (cs : List Char) :
    (skipBlanks cs).head? = (cut cs).head?.bind List.head? := by
  induction cs using runs_induction isSolid with
  | nil => rfl
  | other c cs hc ih =>
    by_cases hblank : isBlank c = true
    · rw [cut_blank hblank, ← ih]
      exact congrArg List.head? (List.dropWhile_cons_of_pos hblank)
    · rw [skipBlanks_cons (Bool.eq_false_iff.mpr hblank), cut_mark (Bool.eq_false_iff.mpr hblank) hc]
      rfl
  | run w cs hne hw hcs ih =>
    obtain ⟨c, w, rfl⟩ := List.exists_cons_of_ne_nil hne
    rw [cut_run hne hw hcs, List.cons_append,
      skipBlanks_cons (isBlank_of_isSolid (hw c List.mem_cons_self))]
    rfl

end InitialValue.Formula
