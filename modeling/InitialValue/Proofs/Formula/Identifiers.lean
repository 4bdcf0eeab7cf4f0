/-
  The names of a text are runs of word characters.

  A name is found by reading plain characters from a plain start and looking at what stands on either
  side.  What that comes to can be said without reading anything: the runs of word characters of any
  script that are written with plain characters only and do not start with a digit.

  A text of one class is its own only run, and a character of no run parts a text into two with the
  runs of either.  The scan obeys the same two laws (`scanNames_run`, `scanNames_parted`), and by
  induction on the characters of no word that is enough (`mem_scanNames_iff`).
-/
import InitialValue.Proofs.Formula.Apart

namespace InitialValue.Formula

open InitialValue.Text

/-! ## Scanning -/

variable {w a b : List Char} {c : Char} {x : String}

/-- Behind a word character, a run starts no name. -/
theorem scanNames_behind (hw : ∀ x ∈ w, isWord x = true) (hc : isWord c = true) :
    scanNames 0 (some c) w = [] := by
  induction w generalizing c with
  | nil => rfl
  | cons x w ih =>
    rw [scanNames, endsWord_some, hc, Bool.not_true, Bool.and_false, if_neg Bool.false_ne_true]
    exact ih (fun y hy => hw y (List.mem_cons_of_mem _ hy)) (hw x List.mem_cons_self)

/-- **In a run of word characters** only the run itself can be found. -/
theorem scanNames_run (hw : ∀ x ∈ w, isWord x = true) :
    scanNames 0 none w = if isPlainText w then [String.ofList w] else [] := by
  rcases w with _ | ⟨c, w⟩
  · rfl
  have hc := hw c List.mem_cons_self
  have hrest : ∀ x ∈ w, isWord x = true := fun x hx => hw x (List.mem_cons_of_mem _ hx)
  have hquiet := scanNames_behind hrest hc
  rw [scanNames, isPlainText]
  dsimp only
  rw [drop_length_takeWhile]
  by_cases hstart : isPlainStart c = true
  · rw [hstart, Bool.true_and, Bool.true_and]
    by_cases hplain : w.all isPlainWord = true
    · have hplain' : ∀ x ∈ w, isPlainWord x = true := fun x hx => List.all_eq_true.mp hplain x hx
      have htake : w.takeWhile isPlainWord = w :=
        List.takeWhile_eq_self_iff.mpr hplain'
      have hfound := scanNames_skip w [] (some c)
      rw [List.append_nil] at hfound
      have hdrop : w.dropWhile isPlainWord = [] := List.dropWhile_eq_nil_iff.mpr hplain'
      rw [htake, hdrop, hplain, hfound]
      rfl
    · -- the plain characters end inside the run
      rcases hdrop : w.dropWhile isPlainWord with _ | ⟨x, more⟩
      · exact absurd (List.all_eq_true.mpr (List.dropWhile_eq_nil_iff.mp hdrop)) hplain
      · have hx : isWord x = true := by
          have hmem : x ∈ w.dropWhile isPlainWord := by
            rw [hdrop]
            exact List.mem_cons_self
          exact hrest x ((List.dropWhile_sublist _).subset hmem)
        rw [List.head?_cons, endsWord_some, hx, if_neg hplain]
        exact hquiet
  · rw [Bool.eq_false_iff.mpr hstart]
    exact hquiet

/-- **What is found** are the runs that are plain. -/
theorem mem_scanNames_iff {cs : List Char} :
    x ∈ scanNames 0 none cs ↔ IsRun isWord x.toList cs ∧ isPlainText x.toList = true := by
  have hwhole : ∀ {w : List Char}, (∀ c ∈ w, isWord c = true) →
      (x ∈ scanNames 0 none w ↔ IsRun isWord x.toList w ∧ isPlainText x.toList = true) := by
    intro w hw
    rw [scanNames_run hw, isRun_whole hw]
    split
    · rename_i hplain
      rw [List.mem_singleton, ← String.toList_inj, String.toList_ofList]
      exact ⟨fun h => ⟨⟨ne_of_isPlainText hplain, h⟩, h ▸ hplain⟩, fun h => h.1.2⟩
    · rename_i hplain
      exact iff_of_false List.not_mem_nil fun h => hplain (h.1.2 ▸ h.2)
  induction cs using parts_induction isWord with
  | whole cs hcs => exact hwhole hcs
  | parted a c b ha hc ih =>
    calc x ∈ scanNames 0 none (a ++ c :: b)
      _ ↔ x ∈ scanNames 0 none a ∨ x ∈ scanNames 0 none b := by
        rw [scanNames_parted hc, List.mem_append]
      _ ↔ IsRun isWord x.toList a ∧ isPlainText x.toList = true ∨
          IsRun isWord x.toList b ∧ isPlainText x.toList = true := or_congr (hwhole ha) ih
      _ ↔ IsRun isWord x.toList (a ++ c :: b) ∧ isPlainText x.toList = true := by
        rw [isRun_parted hc, or_and_right]

/-! ## Names -/

/-- A plain text is made of plain characters and does not start with a digit. -/
theorem isPlainText_iff : isPlainText w = true ↔
    w ≠ [] ∧ (∀ c ∈ w, isPlainWord c = true) ∧ ∀ c ∈ w.head?, c.isDigit = false := by
  rcases w with _ | ⟨c, w⟩
  · simp [isPlainText]
  have hstart : isPlainStart c = true ↔ isPlainWord c = true ∧ c.isDigit = false := by
    constructor
    · exact fun h => ⟨isPlainWord_of_isPlainStart h, not_digit_of_isPlainStart h⟩
    · rintro ⟨h, hd⟩
      rw [isPlainWord, Char.isAlphanum, hd, Bool.or_false] at h
      exact h
  simp only [isPlainText, Bool.and_eq_true, hstart, List.all_eq_true, List.forall_mem_cons,
    List.head?_cons, Option.mem_def, Option.some.injEq, forall_eq', ne_eq, List.cons_ne_nil,
    not_false_eq_true, true_and]
  tauto

/-- The order of names is that of their code points. -/
theorem codePoints_lt {x y : String} (h : x < y) :
    x.toList.map Char.toNat < y.toList.map Char.toNat :=
  List.map_lt (fun _ _ hlt => hlt) h

/-- **The names of a text**, in the order of their code points and each once, are its runs of word
    characters that are plain, do not start with a digit, and name neither a function nor a constant.
    So a character of no word parts a text into two with the names of either. -/
theorem names_of_runs (cs : List Char) :
    (namesIn cs).Pairwise (fun x y => x.toList.map Char.toNat < y.toList.map Char.toNat) ∧
    (∀ x : String, x ∈ namesIn cs ↔ IsRun isWord x.toList cs ∧
      (∀ c ∈ x.toList, isPlainWord c = true) ∧ (∀ c ∈ x.toList.head?, c.isDigit = false) ∧
      x ∉ functionNames ∧ x ∉ constantNames) ∧
    (∀ a b c, cs = a ++ c :: b → isWord c = false →
      ∀ x : String, x ∈ namesIn cs ↔ x ∈ namesIn a ∨ x ∈ namesIn b) := by
  refine ⟨(pairwise_namesIn cs).imp codePoints_lt, fun x => ?_, ?_⟩
  · have hknown : isKnown x = false ↔ x ∉ functionNames ∧ x ∉ constantNames := by
      simp [isKnown]
    rw [mem_namesIn, mem_scanNames_iff, isPlainText_iff, hknown]
    constructor
    · rintro ⟨⟨hrun, -, hplain, hdigit⟩, hfree⟩
      exact ⟨hrun, hplain, hdigit, hfree⟩
    · rintro ⟨hrun, hplain, hdigit, hfree⟩
      exact ⟨⟨hrun, hrun.1, hplain, hdigit⟩, hfree⟩
  · rintro a b c rfl hc x
    rw [mem_namesIn, mem_namesIn, mem_namesIn, scanNames_parted hc, List.mem_append, or_and_right]

/-- A digit in front, or a letter of another script inside, keeps a run from being a name. -/
example : namesIn "2x + éy * y1_ - sin(t)ö".toList = ["t", "y1_"] := by decide +kernel

end InitialValue.Formula
