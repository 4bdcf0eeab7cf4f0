/-
  Finding names in a text.

  The scan takes a run of word characters off a text without looking at what comes behind it
  (`scanNames_append`), so a character of no word parts a text into two with the names of either
  (`scanNames_parted`).  A plain name in front is found (`scanNames_head`), and hence one that
  touches no word character on either side, wherever it stands (`mem_scanNames`).
-/
import InitialValue.Formula.Names
import InitialValue.Proofs.Text.Classes
import InitialValue.Proofs.Text.Runs
import Mathlib.Data.String.Basic

namespace InitialValue.Formula

open InitialValue.Text

/-! ## Scanning -/

variable {w rest a b : List Char} {c : Char}

/-- Characters that belong to the last name found are passed over. -/
theorem scanNames_skip (xs rest : List Char) (b : Option Char) :
    scanNames xs.length b (xs ++ rest) = scanNames 0 (xs.getLast?.or b) rest := by
  induction xs generalizing b with
  | nil => rfl
  | cons x xs ih =>
    rw [List.length_cons, List.cons_append]
    show scanNames xs.length (some x) (xs ++ rest) = _
    rw [ih, List.getLast?_cons]
    cases xs.getLast? <;> rfl

theorem endsWord_drop (hrest : StopsAt isWord rest) (w : List Char) (n : Nat) (hn : n ≤ w.length) :
    endsWord ((w ++ rest).drop n).head? = endsWord (w.drop n).head? := by
  rw [List.drop_append_of_le_length hn]
  rcases w.drop n with _ | ⟨c, x⟩
  · exact endsWord_of_stops hrest
  · rfl

/-- **The names of a run** are found in it, and those of what comes behind it, there. -/
theorem scanNames_append (hrest : StopsAt isWord rest) {n : Nat} (hn : n ≤ w.length)
    (b : Option Char) :
    scanNames n b (w ++ rest) = scanNames n b w ++ scanNames 0 (w.getLast?.or b) rest := by
  have hstop : StopsAt isPlainWord rest := hrest.imp fun c hc => isWord_of_isPlainWord hc
  have hlast : ∀ (c : Char) (w : List Char) (b : Option Char),
      ((c :: w).getLast?.or b) = w.getLast?.or (some c) := by
    intro c w b
    rw [List.getLast?_cons]
    cases w.getLast? <;> rfl
  induction w generalizing n b with
  | nil =>
    obtain rfl := Nat.le_zero.mp hn
    rfl
  | cons c w ih =>
    rw [List.cons_append, hlast]
    cases n with
    | succ n => exact ih (Nat.le_of_succ_le_succ hn) (some c)
    | zero =>
      have htail := (List.takeWhile_sublist (l := w) isPlainWord).length_le
      rw [scanNames, scanNames, takeWhile_append_of_stop w hstop]
      dsimp only
      rw [endsWord_drop hrest w _ htail]
      split
      · split
        · exact ih (Nat.zero_le _) (some c)
        · rw [ih htail (some c)]
          rfl
      · exact ih (Nat.zero_le _) (some c)

/-- Where no word stands on both sides, what stands in front does not matter. -/
theorem scanNames_free {b : Option Char} (h : endsWord b = false ∨ StopsAt isWord rest) :
    scanNames 0 b rest = scanNames 0 none rest := by
  rcases rest with _ | ⟨c, rest⟩
  · rfl
  · have hstart : (isPlainStart c && !endsWord b) = (isPlainStart c && !endsWord none) := by
      rcases h with h | h
      · rw [h]
        rfl
      · rw [isPlainStart_of_isWord (h c rfl), Bool.false_and, Bool.false_and]
    rw [scanNames, scanNames, hstart]

/-- **A character of no word parts the names.** -/
theorem scanNames_parted (hc : isWord c = false) :
    scanNames 0 none (a ++ c :: b) = scanNames 0 none a ++ scanNames 0 none b := by
  have hskip : ∀ d, scanNames 0 d (c :: b) = scanNames 0 none b := by
    intro d
    rw [scanNames, isPlainStart_of_isWord hc, Bool.false_and, if_neg Bool.false_ne_true]
    exact scanNames_free (Or.inl hc)
  rw [scanNames_append (stopsAt_cons hc) (Nat.zero_le _), hskip]

/-- A plain name in front is found, and the scan goes on behind it. -/
theorem scanNames_head (hc : isPlainStart c = true) (hw : ∀ x ∈ w, isPlainWord x = true)
    {b : Option Char} (hb : endsWord b = false) (hrest : StopsAt isWord rest) :
    scanNames 0 b (c :: w ++ rest) =
      String.ofList (c :: w) :: scanNames 0 (w.getLast?.or (some c)) rest := by
  have hstop : StopsAt isPlainWord rest := hrest.imp fun x hx => isWord_of_isPlainWord hx
  have hrun : (w ++ rest).takeWhile isPlainWord = w := takeWhile_append_stop hw hstop
  rw [List.cons_append, scanNames, if_pos (by rw [hc, hb]; rfl), hrun]
  dsimp only
  rw [List.drop_left, if_neg (by rw [endsWord_of_stops hrest]; decide), scanNames_skip]

/-- **A plain name that stands alone is found**, wherever it stands. -/
theorem mem_scanNames (hc : isPlainStart c = true) (hw : ∀ x ∈ w, isPlainWord x = true)
    (hbefore : endsWord a.getLast? = false) (hafter : endsWord b.head? = false) :
    String.ofList (c :: w) ∈ scanNames 0 none (a ++ (c :: w) ++ b) := by
  have hfound : String.ofList (c :: w) ∈ scanNames 0 none (c :: w ++ b) := by
    rw [scanNames_head hc hw rfl (stopsAt_of_endsWord hafter)]
    exact List.mem_cons_self
  rcases List.eq_nil_or_concat a with rfl | ⟨front, d, rfl⟩
  · exact hfound
  · -- the character in front is none of a word, so it parts the text
    rw [List.concat_eq_append] at hbefore ⊢
    have hd : isWord d = false := by rwa [List.getLast?_concat] at hbefore
    rw [List.append_assoc, List.append_assoc, List.singleton_append, scanNames_parted hd]
    exact List.mem_append_right _ hfound

/-! ## The names of a text -/

theorem mem_insertName {x name : String} {xs : List String} :
    x ∈ insertName name xs ↔ x = name ∨ x ∈ xs := by
  induction xs with
  | nil => simp [insertName]
  | cons y ys ih =>
    unfold insertName
    split
    · exact List.mem_cons
    · rename_i hlow
      split
      · rw [List.mem_cons, ih, List.mem_cons]
        tauto
      · rename_i hhigh
        have heq : name = y := le_antisymm (not_lt.mp hhigh) (not_lt.mp hlow)
        rw [heq, List.mem_cons]
        tauto

theorem mem_foldr_insertName {x : String} {xs : List String} :
    x ∈ xs.foldr insertName [] ↔ x ∈ xs := by
  induction xs with
  | nil => rfl
  | cons y ys ih => rw [List.foldr_cons, mem_insertName, ih, List.mem_cons]

theorem pairwise_insertName {name : String} {xs : List String} (h : xs.Pairwise (· < ·)) :
    (insertName name xs).Pairwise (· < ·) := by
  induction h with
  | nil => exact List.pairwise_singleton _ _
  | @cons x xs hx h ih =>
    unfold insertName
    split
    · rename_i hlow
      refine List.pairwise_cons.mpr ⟨?_, .cons hx h⟩
      exact List.forall_mem_cons.mpr ⟨hlow, fun y hy => hlow.trans (hx y hy)⟩
    · split
      · rename_i hhigh
        refine List.pairwise_cons.mpr ⟨fun y hy => ?_, ih⟩
        rcases mem_insertName.mp hy with rfl | hy
        · exact hhigh
        · exact hx y hy
      · exact .cons hx h

theorem pairwise_foldr_insertName (xs : List String) :
    (xs.foldr insertName []).Pairwise (· < ·) := by
  induction xs with
  | nil => exact .nil
  | cons x xs ih => exact pairwise_insertName ih

/-- Names that are in order stay as they are. -/
theorem foldr_insertName_eq {xs : List String} (h : xs.Pairwise (· < ·)) :
    xs.foldr insertName [] = xs := by
  induction h with
  | nil => rfl
  | @cons x xs hx _ ih =>
    rw [List.foldr_cons, ih]
    cases xs with
    | nil => rfl
    | cons y ys => exact if_pos (hx y List.mem_cons_self)

theorem pairwise_namesIn (cs : List Char) : (namesIn cs).Pairwise (· < ·) :=
  pairwise_foldr_insertName _

theorem mem_namesIn {x : String} {cs : List Char} :
    x ∈ namesIn cs ↔ x ∈ scanNames 0 none cs ∧ isKnown x = false := by
  unfold namesIn
  rw [mem_foldr_insertName, List.mem_filter, Bool.not_eq_true']

end InitialValue.Formula
