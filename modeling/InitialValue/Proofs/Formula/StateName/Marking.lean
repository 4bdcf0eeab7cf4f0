/-
  The cells of a text, and the names in it.

  Every text is the plain text of its cells (`plain_cellsFrom`), where the state is a `y` without
  word characters beside it.  Replacing this word by another name for the state (`stateRule`) writes
  the cells with that name (`stateRule_apply`).  The text stays harmless, since digits are walls,
  and the names found in it are those of the plain text, with that of the state (`namesIn_named`).
-/
import InitialValue.Proofs.Formula.Cutting
import InitialValue.Proofs.Formula.Seclusion
import InitialValue.Proofs.Formula.StateName.Normal

namespace InitialValue.Formula

open InitialValue.Text

/-- The word `y` is replaced by another name for the state. -/
def stateRule (w : List Char) : Rule := fun before cs =>
  match cs with
  | 'y' :: rest => if !endsWord before.head? && !endsWord rest.head? then some ⟨0, w⟩ else none
  | _ => none

namespace StateName

/-! ## The cells of a text -/

/-- The cells of a text, told whether a word character stands before it. -/
def cellsFrom (b : Bool) : List Char → List Cell
  | [] => []
  | c :: rest =>
    (if c = 'y' ∧ b = false ∧ endsWord rest.head? = false then .state else .char c) ::
      cellsFrom (isWord c) rest

section

variable {w : List Char} {b : Bool} {xs : List Char}

theorem plain_cellsFrom : plain (cellsFrom b xs) = xs := by
  induction xs generalizing b with
  | nil => rfl
  | cons c xs ih =>
    rw [cellsFrom, plain_cons, ih]
    split
    · rename_i h
      rw [h.1]
      rfl
    · rfl

theorem marked_cellsFrom : Marked b (cellsFrom b xs) false := by
  induction xs generalizing b with
  | nil => trivial
  | cons c xs ih =>
    rw [cellsFrom]
    split
    · rename_i h
      refine ⟨⟨h.2.1, ?_⟩, ?_⟩
      · rw [leads_eq_endsWord, plain_cellsFrom]
        exact h.2.2
      · obtain ⟨rfl, -⟩ := h
        exact ih
    · rename_i h
      refine ⟨fun hc => ?_, ih⟩
      rw [leads_eq_endsWord, plain_cellsFrom]
      rw [not_and, not_and] at h
      cases b with
      | true => exact Or.inl rfl
      | false => exact Or.inr (Bool.not_eq_false _ ▸ h hc rfl)

theorem stateRule_cons (before : List Char) (c : Char) (rest : List Char) :
    stateRule w before (c :: rest) =
      if c = 'y' ∧ endsWord before.head? = false ∧ endsWord rest.head? = false then some ⟨0, w⟩
      else none := by
  by_cases hc : c = 'y'
  · subst hc
    simp [stateRule]
  · simp [stateRule, hc]

/-- **Another name for the state** is written where the cells have the state. -/
theorem stateRule_pass (before xs : List Char) :
    (stateRule w).pass 0 before xs = named w (cellsFrom (endsWord before.head?) xs) := by
  induction xs generalizing before with
  | nil => rfl
  | cons c xs ih =>
    have hrest := ih (c :: before)
    rw [List.head?_cons, endsWord_some] at hrest
    by_cases hstate : c = 'y' ∧ endsWord before.head? = false ∧ endsWord xs.head? = false
    · rw [cellsFrom, if_pos hstate, named_state, ← hrest, Rule.pass, stateRule_cons,
        if_pos hstate]
    · rw [cellsFrom, if_neg hstate, named_char, ← hrest, Rule.pass_none]
      rw [stateRule_cons, if_neg hstate]

theorem stateRule_apply (xs : List Char) :
    (stateRule w).apply xs = named w (cellsFrom false xs) :=
  stateRule_pass [] xs

end

/-! ## Safety -/

/-- Digits are walls, so another name for the state brings about no refused fragment. -/
theorem named_noWorse {w : List Char} (hw : IsStateName w) (cs : List Cell) :
    NoWorse (plain cs) (named w cs) := by
  induction cs with
  | nil => exact .refl _
  | cons c cs ih =>
    cases c with
    | char a => exact (NoWorse.refl [a]).append ih
    | state =>
      obtain ⟨ds, rfl, hds⟩ := hw
      have hdigits : NoWorse [] ds := by
        cases ds with
        | nil => exact .refl _
        | cons d ds => exact .walls [] fun c hc => isWall_of_isDigit (hds c hc)
      have hname : NoWorse (['y'] ++ []) (['y'] ++ ds) := (NoWorse.refl ['y']).append hdigits
      exact hname.append ih

theorem checkSafety_named {w : List Char} (hw : IsStateName w) {cs : List Cell}
    (h : checkSafety (plain cs) = .ok ()) : checkSafety (named w cs) = .ok () := by
  rw [checkSafety_eq_ok] at h ⊢
  exact (named_noWorse hw cs).harmless h

/-! ## Names -/

/-- What a name becomes when the state is called `w`. -/
def asNamed (w : List Char) (s : String) : String := if s = "y" then String.ofList w else s

section

variable {w : List Char} {b b' : Option Char} {cs : List Cell}

theorem asNamed_state : asNamed w (String.ofList ['y']) = String.ofList w := if_pos rfl

theorem asNamed_other {xs : List Char} (h : xs ≠ ['y']) :
    asNamed w (String.ofList xs) = String.ofList xs := by
  refine if_neg fun hy => h ?_
  rw [← String.toList_ofList (l := xs), hy]
  rfl

theorem steady_isPlainWord : Steady isPlainWord := fun _ _ hd => isPlainWord_of_isDigit hd

/-- The rest of a word that begins with a character has no state in it. -/
theorem state_not_mem {e : Bool} {p : Char → Bool} (h : Marked true cs e)
    (hp : ∀ c ∈ cs, c.is p = true → c.is isWord = true) :
    .state ∉ cs.takeWhile (Cell.is p) := by
  rw [← List.takeWhile_append_dropWhile (p := Cell.is p) (l := cs)] at h
  have hrun := (marked_append.mp h).1
  have hword : ∀ c ∈ cs.takeWhile (Cell.is p), c.is isWord = true := fun c hc =>
    hp c ((List.takeWhile_prefix _).subset hc) (mem_takeWhile (p := Cell.is p) hc)
  rcases hrun.of_word hword with hstate | hstate
  · rw [hstate] at hrun
    exact absurd hrun.1.1 (by decide)
  · exact hstate

/-- Where no name can start or a name would run on, the scan goes on. -/
theorem scanNames_step {b : Option Char} {c : Char} {rest : List Char}
    (h : isPlainStart c = false ∨ endsWord b = true ∨
      endsWord (rest.dropWhile isPlainWord).head? = true) :
    scanNames 0 b (c :: rest) = scanNames 0 (some c) rest := by
  rw [scanNames]
  dsimp only
  rw [drop_length_takeWhile]
  rcases h with h | h | h
  · rw [h]
    rfl
  · rw [h, Bool.not_true, Bool.and_false]
    rfl
  · rw [h]
    exact ite_self _

/-- A word that begins with a character is found, and the scan goes on behind it. -/
theorem scanNames_char (hw : IsStateName w) {bs cs : List Cell} {a : Char}
    (h : Marked (leads false bs) (.char a :: cs) false) (ha : isPlainStart a = true)
    (hbefore : endsWord (plain bs).head? = false)
    (hafter : endsWord ((plain cs).dropWhile isPlainWord).head? = false)
    (hlater : ∀ run rest, cs = run ++ rest →
      scanNames 0 (namedBack w (run.reverse ++ .char a :: bs)).head? (named w rest) =
        (scanNames 0 (plain (run.reverse ++ .char a :: bs)).head? (plain rest)).map (asNamed w)) :
    scanNames 0 (namedBack w bs).head? (named w (.char a :: cs)) =
      (scanNames 0 (plain bs).head? (plain (.char a :: cs))).map (asNamed w) := by
  have hword := isWord_of_isPlainWord (isPlainWord_of_isPlainStart ha)
  have hcs : Marked true cs false := hword ▸ h.2
  have hstate := state_not_mem hcs (p := isPlainWord) fun _ _ => isWord_of_isPlainWord
  have hsplit := (List.takeWhile_append_dropWhile (p := Cell.is isPlainWord) (l := cs)).symm
  rw [dropWhile_plain] at hafter
  have hrun : ∀ d ∈ plain (cs.takeWhile (Cell.is isPlainWord)), isPlainWord d = true := by
    rw [← takeWhile_plain]
    exact fun d hd => mem_takeWhile hd
  generalize cs.takeWhile (Cell.is isPlainWord) = run at hstate hsplit hrun
  generalize cs.dropWhile (Cell.is isPlainWord) = rest at hafter hsplit
  subst hsplit
  have htext : isPlainText (a :: plain run) = true := by
    rw [isPlainText, ha]
    exact List.all_eq_true.mpr hrun
  -- a lone `y` would be the state
  have hne : a :: plain run ≠ ['y'] := by
    intro hy
    obtain ⟨rfl, hnil⟩ := List.cons.inj hy
    rw [← leads_eq_endsWord] at hbefore hafter
    rcases h.1 rfl with hleft | hright
    · rw [hbefore] at hleft
      cases hleft
    · rw [leads_append, leads_eq, hnil, List.head?_nil, Option.elim_none, hafter] at hright
      cases hright
  have hplain := scanNames_word htext hbefore (stopsAt_of_endsWord hafter)
  have hbefore' : endsWord (namedBack w bs).head? = false := (endsWord_named hw).trans hbefore
  have hafter' : endsWord (named w rest).head? = false := by rwa [head?_named hw]
  have hnamed := scanNames_word htext hbefore' (stopsAt_of_endsWord hafter')
  have hrest := hlater run rest rfl
  rw [namedBack_append, namedBack_reverse, named_eq_plain hstate, namedBack_char, plain_append,
    plain_reverse, plain_char] at hrest
  rw [named_char, plain_char, named_append, plain_append, named_eq_plain hstate]
  rw [List.cons_append, List.reverse_cons, List.append_assoc, List.singleton_append]
    at hplain hnamed
  rw [hplain, hnamed, hrest, List.map_cons, asNamed_other hne]

/-- **The names of a text** are those of the plain text, with that of the state. -/
theorem scanNames_named (hw : IsStateName w) {bs cs : List Cell}
    (h : Marked false (bs.reverse ++ cs) false) :
    scanNames 0 (namedBack w bs).head? (named w cs) =
      (scanNames 0 (plain bs).head? (plain cs)).map (asNamed w) := by
  -- on the length of the text, since the scan goes on behind a name
  induction hn : cs.length using Nat.strongRecOn generalizing bs cs with
  | ind n ih =>
    cases cs with
    | nil => rfl
    | cons c cs =>
      have hcs := h.behind
      have hleft : endsWord (namedBack w bs).head? = endsWord (plain bs).head? :=
        endsWord_named hw
      have hnext : scanNames 0 (namedBack w (c :: bs)).head? (named w cs) =
          (scanNames 0 (plain (c :: bs)).head? (plain cs)).map (asNamed w) :=
        ih cs.length (by rw [← hn, List.length_cons]; omega)
          (by rwa [List.reverse_cons, List.append_assoc]) rfl
      cases c with
      | state =>
        obtain ⟨hbefore, hafter⟩ : leads false bs = false ∧ leads false cs = false := hcs.1
        rw [leads_eq_endsWord] at hbefore hafter
        have hplain : scanNames 0 (plain bs).head? (['y'] ++ plain cs) =
            String.ofList ['y'] :: scanNames 0 (['y'].reverse ++ plain bs).head? (plain cs) :=
          scanNames_word (by decide) hbefore (stopsAt_of_endsWord hafter)
        have htext : isPlainText w = true := by
          obtain ⟨ds, rfl, hds⟩ := hw
          exact List.all_eq_true.mpr fun d hd => isPlainWord_of_isDigit (hds d hd)
        have hnamed := scanNames_word htext (hleft.trans hbefore)
          (stopsAt_of_endsWord (by rw [head?_named hw]; exact hafter))
        rw [namedBack_state] at hnext
        rw [named_state, hnamed, hnext]
        refine Eq.trans ?_ (congrArg (List.map (asNamed w)) hplain).symm
        rw [List.map_cons, asNamed_state]
        rfl
      | char a =>
        rw [namedBack_char, List.head?_cons] at hnext
        have hdrop : endsWord ((named w cs).dropWhile isPlainWord).head? =
            endsWord ((plain cs).dropWhile isPlainWord).head? := by
          rw [dropWhile_named hw steady_isPlainWord, head?_named hw, dropWhile_plain]
        by_cases hstart : isPlainStart a = true ∧ endsWord (plain bs).head? = false ∧
            endsWord ((plain cs).dropWhile isPlainWord).head? = false
        · refine scanNames_char hw hcs hstart.1 hstart.2.1 hstart.2.2 fun run rest hsplit => ?_
          subst hsplit
          refine ih rest.length ?_ ?_ rfl
          · rw [← hn, List.length_cons, List.length_append]
            omega
          · simpa only [List.reverse_append, List.reverse_reverse, List.reverse_cons,
              List.append_assoc, List.singleton_append, List.cons_append, List.nil_append] using h
        · have hnone : isPlainStart a = false ∨ endsWord (plain bs).head? = true ∨
              endsWord ((plain cs).dropWhile isPlainWord).head? = true := by
            simpa only [not_and_or, Bool.not_eq_true, Bool.not_eq_false] using hstart
          rw [named_char, plain_char, scanNames_step (by rwa [hleft, hdrop]), scanNames_step hnone]
          exact hnext

theorem isKnown_state (hw : IsStateName w) : isKnown (String.ofList w) = false := by
  have hconstants : ∀ f ∈ constantNames, f.toList.head? ≠ some 'y' := by decide
  rw [isKnown, not_function_of_state hw, Bool.false_or, ← Bool.not_eq_true, List.contains_iff_mem]
  intro hmem
  obtain ⟨ds, rfl, -⟩ := hw
  refine hconstants _ hmem ?_
  rw [String.toList_ofList]
  rfl

theorem isKnown_asNamed (hw : IsStateName w) (s : String) : isKnown (asNamed w s) = isKnown s := by
  by_cases hs : s = "y"
  · subst hs
    rw [asNamed, if_pos rfl, isKnown_state hw]
    exact (isKnown_state isStateName_y).symm
  · rw [asNamed, if_neg hs]

/-- Putting names in order, if they stand in the same order with other names. -/
theorem insertName_map {r : String → String} {x : String} {xs : List String}
    (hr : ∀ a ∈ x :: xs, ∀ b ∈ x :: xs, r a < r b ↔ a < b) :
    insertName (r x) (xs.map r) = (insertName x xs).map r := by
  induction xs with
  | nil => rfl
  | cons y ys ih =>
    have hxy := hr x (by simp) y (by simp)
    have hyx := hr y (by simp) x (by simp)
    rw [List.map_cons, insertName, insertName]
    simp only [hxy, hyx]
    rw [ih fun a ha b hb => hr a (by simp at ha ⊢; tauto) b (by simp at hb ⊢; tauto)]
    split
    · rfl
    · split <;> rfl

/-- The names of a single formula stand in the same order, whatever the state is called. -/
theorem asNamed_lt (hw : IsStateName w) {a b : String} (ha : a = "t" ∨ a = "y")
    (hb : b = "t" ∨ b = "y") : asNamed w a < asNamed w b ↔ a < b := by
  have ht : asNamed w "t" = "t" := if_neg (by decide)
  have hy : asNamed w "y" = String.ofList w := if_pos rfl
  have hlt : "t" < String.ofList w := by
    obtain ⟨ds, rfl, -⟩ := hw
    rw [String.lt_iff_toList_lt, String.toList_ofList, String.toList_ofList]
    have hty : 't' < 'y' := by decide
    exact List.Lex.rel hty
  rcases ha with rfl | rfl <;> rcases hb with rfl | rfl
  · rw [ht]
  · rw [ht, hy]
    exact iff_of_true hlt (by decide)
  · rw [ht, hy]
    exact iff_of_false (lt_asymm hlt) (by decide)
  · rw [hy]
    exact iff_of_false (lt_irrefl _) (lt_irrefl _)

/-- **The names of a formula** for the state of one equation, with another name for the state. -/
theorem namesIn_named (hw : IsStateName w) {cs : List Cell} (hcs : Marked false cs false)
    (hnames : ∀ s ∈ namesIn (plain cs), s = "t" ∨ s = "y") :
    namesIn (named w cs) = (namesIn (plain cs)).map (asNamed w) := by
  have hscan : scanNames 0 none (named w cs) = (scanNames 0 none (plain cs)).map (asNamed w) :=
    @scanNames_named w hw [] cs hcs
  unfold namesIn at hnames ⊢
  rw [hscan, List.filter_map]
  have hfilter : ((fun n => !isKnown n) ∘ asNamed w) = fun n => !isKnown n := by
    funext s
    rw [Function.comp, isKnown_asNamed hw]
  rw [hfilter]
  generalize (scanNames 0 none (plain cs)).filter (fun n => !isKnown n) = names at hnames ⊢
  simp only [mem_foldr_insertName] at hnames
  induction names with
  | nil => rfl
  | cons x xs ih =>
    rw [List.map_cons, List.foldr_cons, List.foldr_cons,
      ih fun s hs => hnames s (List.mem_cons_of_mem _ hs)]
    refine insertName_map fun a ha b hb => asNamed_lt hw (hnames a ?_) (hnames b ?_)
    · rwa [List.mem_cons, mem_foldr_insertName, ← List.mem_cons] at ha
    · rwa [List.mem_cons, mem_foldr_insertName, ← List.mem_cons] at hb

end

end StateName

end InitialValue.Formula
