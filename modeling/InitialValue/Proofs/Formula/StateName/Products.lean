/-
  Operands in front of a bracket, whatever the state is called.

  Two rules write the star of a product without a sign: an operand is copied, and what joins it to
  the bracket is replaced (`neat_joined`).  Both are one rule (`bracketRule`) for their kind of
  operand, and this treats all names for the state alike if the operands are the same cells
  (`bracketRule_respects`).  The rule for names asks whether a name is that of a
  function, which no name for the state is (`not_function_of_state`); the cells of any other name
  are characters (`name_cells`).
-/
import InitialValue.Proofs.Formula.StateName.Rules

namespace InitialValue.Formula.StateName

open InitialValue.Text

/-! ## Products without a sign -/

section

variable {w : List Char} {b e : Bool} {bs cs : List Cell} {n : Nat}

/-- What joins an operand and an opening bracket may be written otherwise. -/
theorem neat_joined {joint joint' rest : List Cell} (hn : cs.drop n = joint ++ rest)
    (hpos : n ≠ 0) (hb : b = false) (hmarked : Marked b cs false)
    (hjoint : ∀ c ∈ joint, c.is isWord = false) (hne : joint ≠ [])
    (hjoint' : ∀ c ∈ joint', c.is isWord = false) (hne' : joint' ≠ []) :
    Neat b cs (n + joint.length) (cs.take n ++ joint') where
  full := by simp [hne']
  starts h := by
    rw [hb] at h
    cases h
  ends _ := by
    rw [trails_append, trails_of_forall hjoint' hne', List.take_add, hn, List.take_left,
      trails_append, trails_of_forall hjoint hne]
  marked b' e' hleft _ := by
    have htake := hmarked.take (n := n)
    rw [hn, leads_append_gap hjoint hne] at htake
    rw [marked_append]
    have hjoint'' : leads e' joint' = false := by
      have hlead : leads e' (joint' ++ []) = false := leads_append_gap hjoint' hne'
      rwa [List.append_nil] at hlead
    refine ⟨?_, ?_⟩
    · rw [hjoint'']
      refine htake.of_left fun hlead => hleft ?_
      rw [← List.take_append_drop n cs, leads_append]
      have htaken : cs.take n ≠ [] := by
        intro hnil
        rcases List.take_eq_nil_iff.mp hnil with h | h
        · exact hpos h
        · rw [h, List.drop_nil] at hn
          simp [hne] at hn
      exact (leads_of_ne htaken).trans hlead
    · exact marked_of_other fun c hc => other_of_not_word (hjoint' c hc)

/-- The blanks in front of an opening bracket, and the bracket. -/
theorem exists_of_open (h : (plain (skip cs)).head? = some '(') : ∃ joint rest,
    cs = joint ++ rest ∧ joint.length = ((plain cs).takeWhile isBlank).length + 1 ∧
      (∀ c ∈ joint, c.is isWord = false) ∧ joint ≠ [] := by
  obtain ⟨ys, -, hcs⟩ := exists_of_skip h (by decide)
  refine ⟨cs.takeWhile (Cell.is isBlank) ++ [.char '('], ys, ?_, ?_, ?_, by simp⟩
  · rw [List.append_assoc]
    exact hcs
  · rw [takeWhile_plain, length_plain, List.length_append]
    rfl
  · intro c hc
    rcases List.mem_append.mp hc with hc | hc
    · exact gap_not_word c hc
    · rw [List.mem_singleton.mp hc]
      rfl

theorem length_joint (h : (plain (skip (cs.drop n))).head? = some '(') :
    span w cs (n + ((plain (cs.drop n)).takeWhile isBlank).length + 1) =
      span w cs n + span w (cs.drop n) ((plain (cs.drop n)).takeWhile isBlank).length + 1 := by
  obtain ⟨ys, hys, -⟩ := exists_of_skip h (by decide)
  rw [Nat.add_assoc, span_add, span_add, drop_gap, hys, span_char, span_zero, Nat.add_assoc]

/-! ## Operands and brackets -/

/-- What the two rules for brackets do (`bracketRule`), in cells. -/
def bracketCells? (blocked : List Char → Bool) (length? : List Char → Option Nat)
    (called : List Char → Bool) (bs cs : List Cell) : Option (Nat × List Cell) :=
  if blocked (plain bs) then none
  else (length? (plain cs)).bind fun n =>
    if (plain (skip (cs.drop n))).head? = some '(' then
      some (n + ((plain (cs.drop n)).takeWhile isBlank).length,
        if called (plain (cs.take n)) then
          cs.take (n + ((plain (cs.drop n)).takeWhile isBlank).length + 1)
        else cs.take n ++ [.char '*', .char '('])
    else none

/-- Operands that are the same cells, whatever the state is called. -/
structure OperandCells (w : List Char) (blocked : List Char → Bool)
    (length? : List Char → Option Nat) (called : List Char → Bool) : Prop where
  blocked_named : ∀ bs, blocked (namedBack w bs) = blocked (plain bs)
  free : ∀ bs, blocked (plain bs) = false → leads false bs = false
  length_named : ∀ cs, length? (named w cs) = (length? (plain cs)).map (span w cs)
  positive : ∀ b cs n, Marked b cs false → length? (plain cs) = some n → n ≠ 0
  called_named : ∀ b cs n, Marked b cs false → length? (plain cs) = some n →
    called (named w (cs.take n)) = called (plain (cs.take n))

section

variable {blocked : List Char → Bool} {length? : List Char → Option Nat}
variable {called : List Char → Bool}

theorem bracketRule_plain (bs cs : List Cell) :
    bracketRule blocked length? called (plain bs) (plain cs) =
      (bracketCells? blocked length? called bs cs).map fun p => ⟨p.1, plain p.2⟩ := by
  unfold bracketRule bracketCells?
  split
  · rfl
  · cases length? (plain cs) with
    | none => rfl
    | some n =>
      rw [Option.bind_some, Option.bind_some, plain_drop, skipBlanks_plain, plain_take, plain_take]
      split
      · rw [Option.map_some, apply_ite plain, plain_append]
        rfl
      · rfl

theorem bracketRule_named (hw : IsStateName w) (ho : OperandCells w blocked length? called)
    (hmarked : Marked b cs false) :
    bracketRule blocked length? called (namedBack w bs) (named w cs) =
      (bracketCells? blocked length? called bs cs).map fun p =>
        ⟨span w cs (p.1 + 1) - 1, named w p.2⟩ := by
  unfold bracketRule bracketCells?
  rw [ho.blocked_named, ho.length_named]
  split
  · rfl
  · cases hlength : length? (plain cs) with
    | none => rfl
    | some n =>
      rw [Option.map_some, Option.bind_some, Option.bind_some, named_drop, skipBlanks_named hw,
        head?_named hw, named_take, length_takeWhile_named hw steady_isBlank,
        ho.called_named b cs n hmarked hlength]
      split
      · rename_i hopen
        rw [Option.map_some, ← length_joint hopen, named_take, length_joint hopen,
          Nat.add_sub_cancel, apply_ite (named w), named_append]
        rfl
      · rfl

theorem bracketCells?_neat (ho : OperandCells w blocked length? called)
    (hmarked : Marked (leads false bs) cs false) {out : List Cell}
    (h : bracketCells? blocked length? called bs cs = some (n, out)) :
    Neat (leads false bs) cs (n + 1) out := by
  obtain ⟨hbefore, h⟩ := Option.ite_none_left_eq_some.mp h
  obtain ⟨m, hm, h⟩ := Option.bind_eq_some_iff.mp h
  obtain ⟨hopen, h⟩ := Option.ite_none_right_eq_some.mp h
  obtain ⟨rfl, rfl⟩ := Prod.mk.inj (Option.some.inj h)
  obtain ⟨joint, rest, hrest, hlength, hjoint, hne⟩ := exists_of_open hopen
  have hleft := ho.free bs (Bool.eq_false_iff.mpr hbefore)
  have hpos := ho.positive _ _ _ hmarked hm
  rw [Nat.add_assoc, ← hlength]
  split
  · -- the call is copied with its bracket
    rw [List.take_add, hrest, List.take_left]
    exact neat_joined hrest hpos hleft hmarked hjoint hne hjoint hne
  · exact neat_joined hrest hpos hleft hmarked hjoint hne (by decide) (by simp)

theorem bracketRule_respects (hw : IsStateName w) (ho : OperandCells w blocked length? called)
    (hidle : Idle (bracketRule blocked length? called)) :
    Respects w (bracketRule blocked length? called) :=
  respects_of_cells (bracketCells? blocked length? called) hidle
    (fun bs c cs _ => bracketRule_plain bs (c :: cs))
    (fun _ _ _ hmarked => bracketRule_named hw ho hmarked.behind)
    (fun _ _ _ _ _ hmarked h => bracketCells?_neat ho hmarked h)

end

/-! ## Numbers -/

/-- Is something in front that a number would run on from? -/
def runsOn (before : List Char) : Bool := before.head?.elim false fun c => isWord c || c == '.'

theorem runsOn_named (hw : IsStateName w) : runsOn (namedBack w bs) = runsOn (plain bs) := by
  refine before_named hw fun d hd => ?_
  rw [isWord_of_isPlainWord (isPlainWord_of_isDigit hd)]
  rfl

theorem leads_of_runsOn (h : runsOn (plain bs) = false) : leads false bs = false := by
  cases bs with
  | nil => rfl
  | cons c bs => exact (Bool.or_eq_false_iff.mp h).1

theorem numberLength?_pos {xs : List Char} (h : numberLength? xs = some n) : n ≠ 0 := by
  rintro rfl
  rw [numberLength?_eq, Option.map_eq_some_iff] at h
  obtain ⟨m, hm, hzero⟩ := h
  obtain rfl : m = 0 := by omega
  unfold mantissaLength? at hm
  dsimp only at hm
  split at hm
  · split at hm
    · cases hm
    · exact absurd (Option.some.inj hm) (by omega)
  · split at hm
    · cases hm
    · rename_i hwhole
      exact hwhole (Option.some.inj hm)

theorem numberBracketRule_respects (hw : IsStateName w) : Respects w numberBracketRule := by
  rw [numberBracketRule_eq_bracketRule]
  refine bracketRule_respects hw ⟨fun bs => runsOn_named hw, fun bs => leads_of_runsOn,
    fun cs => numberLength?_named hw, fun _ _ _ _ => numberLength?_pos, fun _ _ _ _ _ => rfl⟩ ?_
  intro a before d cs ha _
  exact if_pos (Bool.or_eq_true_iff.mpr (Or.inl ha))

/-! ## Names -/

/-- The names of functions begin with other letters than a name for the state. -/
theorem functionNames_state : ∀ f ∈ functionNames, f.toList.head? ≠ some 'y' := by decide

theorem not_function_of_state (hw : IsStateName w) :
    functionNames.contains (String.ofList w) = false := by
  rw [← Bool.not_eq_true, List.contains_iff_mem]
  intro hmem
  obtain ⟨ds, rfl, -⟩ := hw
  refine functionNames_state _ hmem ?_
  rw [String.toList_ofList]
  rfl

/-- The cells of a name are the state or all characters. -/
theorem name_cells (hmarked : Marked b cs e) (h : nameLength? (plain cs) = some n) :
    n ≠ 0 ∧ (cs.take n = [.state] ∨ .state ∉ cs.take n) := by
  rw [nameLength?_eq] at h
  split at h
  · rename_i hstart
    obtain rfl := Option.some.inj h
    refine ⟨?_, hmarked.take.of_word ?_⟩
    · rw [ne_eq, length_takeWhile_eq_zero]
      cases hhead : (plain cs).head? with
      | none =>
        rw [hhead] at hstart
        cases hstart
      | some c =>
        rw [hhead] at hstart
        rw [Option.elim_some, isWord_of_isPlainWord (isPlainWord_of_isPlainStart hstart)]
        decide
    · rw [take_run]
      intro c hc
      exact mem_takeWhile (p := Cell.is isWord) hc
  · cases h

theorem isFunction_named (hw : IsStateName w) (hmarked : Marked b cs e)
    (h : nameLength? (plain cs) = some n) :
    functionNames.contains (String.ofList (named w (cs.take n))) =
      functionNames.contains (String.ofList (plain (cs.take n))) := by
  rcases (name_cells hmarked h).2 with hstate | hstate
  · rw [hstate]
    show functionNames.contains (String.ofList (w ++ [])) = functionNames.contains "y"
    rw [List.append_nil, not_function_of_state hw]
    exact (not_function_of_state isStateName_y).symm
  · rw [named_eq_plain hstate]

theorem nameBracketRule_respects (hw : IsStateName w) : Respects w nameBracketRule := by
  rw [nameBracketRule_eq_bracketRule]
  refine bracketRule_respects hw ⟨fun bs => endsWord_named hw, fun bs h => leads_eq_endsWord.trans h,
    fun cs => nameLength?_named hw, fun _ _ _ hmarked hn => (name_cells hmarked hn).1,
    fun _ _ _ => isFunction_named hw⟩ ?_
  intro a before d cs ha _
  exact if_pos ha

end

end InitialValue.Formula.StateName
