/-
  Reading the tokens of a phrase.

  The reader goes down from operators to operands and comes back with the tree of the phrase, up to
  the spelling of powers.  For each of its layers there is a statement about the phrases that are
  strong enough for it (`ReadsAtom` to `ReadsItems`); a phrase that is read by one layer is read by
  those above it.  On the layer of operators the tree is built from the left while the reader goes
  on, so there the statement says where the reader stands behind the phrase (`ReadsSum`).

  The fuel is eight for each token, as the reader passes through fewer functions before it takes the
  next one.
-/
import InitialValue.Proofs.Formula.Tokens

namespace InitialValue.Formula

open InitialValue.Formula.Expr

/-! ## The layers of the reader -/

namespace Phrase

variable {p : Phrase}

/-- The reader of operands reads the phrase. -/
def ReadsAtom (p : Phrase) : Prop :=
  ∀ fuel rest, 8 * p.tokens.length + 2 ≤ fuel → NoTrailer rest →
    ∃ x, ((readAtom fuel (p.tokens ++ rest)).bind fun q => readTrailers fuel q.1 q.2) =
      some (x, rest) ∧ x.identify = p.tree.identify

/-- The reader of powers reads the phrase. -/
def ReadsPower (p : Phrase) : Prop :=
  ∀ fuel rest, 8 * p.tokens.length + 4 ≤ fuel → Ends 3 rest →
    ∃ x, readPower fuel (p.tokens ++ rest) = some (x, rest) ∧ x.identify = p.tree.identify

/-- The reader of signs reads the phrase. -/
def ReadsSigned (p : Phrase) : Prop :=
  ∀ fuel rest, 8 * p.tokens.length + 6 ≤ fuel → Ends 3 rest →
    ∃ x, readSigned fuel (p.tokens ++ rest) = some (x, rest) ∧ x.identify = p.tree.identify

/-- The reader of operators has the phrase as its left operand once it is behind it. -/
def ReadsSum (p : Phrase) : Prop :=
  ∀ s fuel rest, s ≤ p.strength + 5 → 8 * p.tokens.length + 8 ≤ fuel → Ends (min p.strength 3) rest →
    ∃ x fuel', fuel ≤ fuel' + p.tokens.length ∧
      read fuel s (p.tokens ++ rest) = readOperators fuel' s x rest ∧
      x.identify = p.tree.identify

/-- The reader of items reads the phrase as the items up to a closing bracket. -/
def ReadsItems (p : Phrase) : Prop :=
  ∀ fuel rest, 8 * p.tokens.length + 10 ≤ fuel →
    ∃ xs, xs ≠ [] ∧ readItem fuel ")" (p.tokens ++ .mark ")" :: rest) = some (xs, false, rest) ∧
      identifyAll xs = identifyAll p.tree.items

/-- All layers read what is strong enough for them. -/
structure Readable (p : Phrase) : Prop where
  atom : p.strength = 6 → p.ReadsAtom
  power : 5 ≤ p.strength → p.ReadsPower
  signed : 4 ≤ p.strength → p.ReadsSigned
  sum : 2 ≤ p.strength → p.ReadsSum
  items : p.ReadsItems

theorem tokens_pos (hp : p.proper = true) : 1 ≤ p.tokens.length := by
  obtain ⟨t, ts, hts, -⟩ := p.tokens_head hp
  rw [hts]
  simp

theorem readsPower_of_atom (h : p.ReadsAtom) : p.ReadsPower := by
  intro fuel rest hfuel hrest
  obtain ⟨fuel, rfl⟩ : ∃ k, fuel = k + 1 := ⟨fuel - 1, by omega⟩
  obtain ⟨x, hx, htree⟩ := h fuel rest (by omega) hrest.noTrailer
  refine ⟨x, ?_, htree⟩
  rw [readPower_eq, hx, Option.bind_some]
  split
  · rename_i more heq
    have hhead : rest.head? = some (.mark "**") := congrArg List.head? heq
    exact absurd hhead (hrest.head_ne (by decide))
  · rfl

theorem readsSigned_of_power (hp : p.proper = true) (hstrength : 5 ≤ p.strength)
    (h : p.ReadsPower) : p.ReadsSigned := by
  intro fuel rest hfuel hrest
  obtain ⟨fuel, rfl⟩ : ∃ k, fuel = k + 1 := ⟨fuel - 1, by omega⟩
  obtain ⟨x, hx, htree⟩ := h fuel rest (by omega) hrest
  obtain ⟨t, ts, hts, -, hhead⟩ := p.tokens_head hp
  refine ⟨x, ?_, htree⟩
  rw [hts, List.cons_append] at hx ⊢
  rw [readSigned_operand (hhead hstrength), hx]

theorem readsSum_of_signed (hp : p.proper = true) (h : p.ReadsSigned) : p.ReadsSum := by
  intro s fuel rest _ hfuel hrest
  obtain ⟨fuel, rfl⟩ : ∃ k, fuel = k + 1 := ⟨fuel - 1, by omega⟩
  obtain ⟨x, hx, htree⟩ := h fuel rest (by omega) (hrest.mono (Nat.min_le_right _ _))
  have hlength := tokens_pos hp
  refine ⟨x, fuel, by omega, ?_, htree⟩
  rw [Expr.read, hx]
  rfl

/-- Behind an item, the reader of operators stops. -/
theorem readsItem_of_sum (h : p.ReadsSum) (fuel : Nat) (rest : List Token)
    (hfuel : 8 * p.tokens.length + 9 ≤ fuel) {t : Token} (ht : t = .mark ")" ∨ t = .mark ",") :
    ∃ x, read fuel 0 (p.tokens ++ t :: rest) = some (x, t :: rest) ∧
      x.identify = p.tree.identify := by
  have hends : Ends (min p.strength 3) (t :: rest) := by
    rcases ht with rfl | rfl
    · exact ends_close _ _
    · exact ends_comma _ _
  obtain ⟨x, fuel', hfuel', hread, htree⟩ := h 0 fuel (t :: rest) (Nat.zero_le _) (by omega) hends
  obtain ⟨k, rfl⟩ : ∃ k, fuel' = k + 1 := ⟨fuel' - 1, by omega⟩
  refine ⟨x, ?_, htree⟩
  rw [hread]
  refine readOperators_stop hends (Or.inr fun u hu => ?_) k x
  cases hu
  exact ht

theorem readsItems_of_sum (hp : p.proper = true) (hstrength : 2 ≤ p.strength) (h : p.ReadsSum) :
    p.ReadsItems := by
  intro fuel rest hfuel
  obtain ⟨fuel, rfl⟩ : ∃ k, fuel = k + 1 := ⟨fuel - 1, by omega⟩
  obtain ⟨x, hx, htree⟩ := readsItem_of_sum h fuel rest (by omega) (Or.inl rfl)
  refine ⟨[x], List.cons_ne_nil _ _, ?_, ?_⟩
  · rw [readItem, hx]
    rfl
  · rw [tree_items hp hstrength]
    show [x.identify] = [p.tree.identify]
    rw [htree]

theorem readable_of_sum (hp : p.proper = true) (hstrength : 2 ≤ p.strength)
    (hweak : p.strength ≤ 3) (h : p.ReadsSum) : p.Readable :=
  ⟨fun h6 => by omega, fun h5 => by omega, fun h4 => by omega, fun _ => h,
    readsItems_of_sum hp hstrength h⟩

theorem readable_of_signed (hp : p.proper = true) (hstrength : p.strength = 4)
    (h : p.ReadsSigned) : p.Readable :=
  have hsum := readsSum_of_signed hp h
  ⟨fun h6 => by omega, fun h5 => by omega, fun _ => h, fun _ => hsum,
    readsItems_of_sum hp (by omega) hsum⟩

theorem readable_of_power (hp : p.proper = true) (hstrength : p.strength = 5)
    (h : p.ReadsPower) : p.Readable :=
  have hsigned := readsSigned_of_power hp (by omega) h
  have hsum := readsSum_of_signed hp hsigned
  ⟨fun h6 => by omega, fun _ => h, fun _ => hsigned, fun _ => hsum,
    readsItems_of_sum hp (by omega) hsum⟩

theorem readable_of_atom (hp : p.proper = true) (hstrength : p.strength = 6)
    (h : p.ReadsAtom) : p.Readable :=
  have hpower := readsPower_of_atom h
  have hsigned := readsSigned_of_power hp (by omega) hpower
  have hsum := readsSum_of_signed hp hsigned
  ⟨fun _ => h, fun _ => hpower, fun _ => hsigned, fun _ => hsum,
    readsItems_of_sum hp (by omega) hsum⟩

/-! ## Operands -/

theorem readsAtom_number (n : Numeral) : (number n).ReadsAtom := by
  intro fuel rest hfuel hrest
  obtain ⟨fuel, rfl⟩ : ∃ k, fuel = k + 1 := ⟨fuel - 1, by omega⟩
  exact ⟨.number n.literal, readTrailers_stop hrest fuel _, rfl⟩

theorem settled_unreserved (w : Name) : reserved.contains w.settled = false :=
  w.settlePi.settleEuler.unreserved

theorem readsAtom_name (w : Name) : (name w).ReadsAtom := by
  intro fuel rest hfuel hrest
  obtain ⟨fuel, rfl⟩ : ∃ k, fuel = k + 1 := ⟨fuel - 1, by omega⟩
  refine ⟨.name w.settled, ?_, rfl⟩
  have hatom : readAtom (fuel + 1) ((name w).tokens ++ rest) = some (.name w.settled, rest) := by
    rw [tokens_name, List.singleton_append, readAtom, settled_unreserved w]
    rfl
  rw [hatom]
  exact readTrailers_stop hrest fuel _

theorem functionNames_unreserved :
    (functionNames.all fun f => !reserved.contains f) = true := by decide

theorem readAtom_function (f : FunctionName) (fuel : Nat) (ts : List Token) :
    readAtom (fuel + 1) (.name f.val :: ts) = some (.name f.val, ts) := by
  have h := List.all_eq_true.mp functionNames_unreserved f.val (List.contains_iff_mem.mp f.property)
  rw [Bool.not_eq_true'] at h
  rw [readAtom, h]
  rfl

theorem readTrailers_call (fuel : Nat) (x : Expr) (ts : List Token) :
    readTrailers (fuel + 1) x (.mark "(" :: ts) =
      (readItems fuel ")" ts).bind fun r => readTrailers fuel (.call x r.1) r.2.2 := rfl

/-- A phrase that is no list of arguments is read as one item. -/
theorem singleton_of_items (hp : p.proper = true) (hstrength : 2 ≤ p.strength) {xs : List Expr}
    (h : identifyAll xs = identifyAll p.tree.items) :
    ∃ x, xs = [x] ∧ x.identify = p.tree.identify := by
  rw [tree_items hp hstrength] at h
  rcases xs with _ | ⟨x, _ | ⟨y, xs⟩⟩
  · cases h
  · exact ⟨x, rfl, (List.cons.inj h).1⟩
  · cases (List.cons.inj h).2

/-- The items of a phrase in brackets. -/
theorem readItems_phrase (hp : p.proper = true) (h : p.ReadsItems) (fuel : Nat)
    (hfuel : 8 * p.tokens.length + 11 ≤ fuel) (rest : List Token) :
    ∃ xs, xs ≠ [] ∧ readItems fuel ")" (p.tokens ++ .mark ")" :: rest) = some (xs, false, rest) ∧
      identifyAll xs = identifyAll p.tree.items := by
  obtain ⟨fuel, rfl⟩ : ∃ k, fuel = k + 1 := ⟨fuel - 1, by omega⟩
  obtain ⟨xs, hne, hread, htree⟩ := h fuel rest (by omega)
  obtain ⟨t, ts, hts, hhead, -⟩ := p.tokens_head hp
  refine ⟨xs, hne, ?_, htree⟩
  rw [hts, List.cons_append] at hread ⊢
  rw [readItems_item _ fuel, hread]
  rintro rfl
  rcases hhead with (⟨l, h⟩ | ⟨s, h⟩ | h) | h <;> simp at h

theorem readsAtom_call {f : FunctionName} {g g' : Gap} {args : Phrase} (hp : args.proper = true)
    (h : args.ReadsItems) : (call f g args g').ReadsAtom := by
  intro fuel rest hfuel hrest
  rw [tokens_call] at hfuel ⊢
  simp only [List.length_cons, List.length_append, List.length_nil] at hfuel
  obtain ⟨fuel, rfl⟩ : ∃ k, fuel = k + 2 := ⟨fuel - 2, by omega⟩
  obtain ⟨xs, -, hread, htree⟩ := readItems_phrase hp h (fuel + 1) (by omega) rest
  refine ⟨.call (.name f.val) xs, ?_, ?_⟩
  · rw [List.cons_append, readAtom_function, Option.bind_some, List.cons_append, List.append_assoc,
      List.singleton_append, readTrailers_call, hread, Option.bind_some]
    exact readTrailers_stop hrest fuel _
  · show applied _ (identifyAll xs) = applied _ (identifyAll args.tree.items)
    rw [htree]

theorem readsAtom_bare (f : FunctionName) (g : Gap) : (bare f g).ReadsAtom := by
  intro fuel rest hfuel hrest
  rw [tokens_bare] at hfuel ⊢
  simp only [List.length_cons, List.length_nil] at hfuel
  obtain ⟨fuel, rfl⟩ : ∃ k, fuel = k + 2 := ⟨fuel - 2, by omega⟩
  refine ⟨.call (.name f.val) [], ?_, rfl⟩
  rw [List.cons_append, readAtom_function, Option.bind_some, List.cons_append, readTrailers_call]
  exact readTrailers_stop hrest fuel _

theorem readAtom_open (fuel : Nat) (ts : List Token) :
    readAtom (fuel + 1) (.mark "(" :: ts) =
      (readItems fuel ")" ts).bind fun r =>
        match r.1, r.2.1 with
        | [x], false => some (x, r.2.2)
        | items, _ => some (.collection .round items, r.2.2) := rfl

theorem readsAtom_group {g g' : Gap} (hp : p.proper = true) (hstrength : 2 ≤ p.strength)
    (h : p.ReadsItems) : (group g p g').ReadsAtom := by
  intro fuel rest hfuel hrest
  rw [tokens_group] at hfuel ⊢
  simp only [List.length_cons, List.length_append, List.length_nil] at hfuel
  obtain ⟨fuel, rfl⟩ : ∃ k, fuel = k + 1 := ⟨fuel - 1, by omega⟩
  obtain ⟨xs, -, hread, htree⟩ := readItems_phrase hp h fuel (by omega) rest
  obtain ⟨x, rfl, hx⟩ := singleton_of_items hp hstrength htree
  refine ⟨x, ?_, hx⟩
  rw [List.cons_append, List.append_assoc, List.singleton_append, readAtom_open, hread]
  exact readTrailers_stop hrest fuel x

/-! ## Powers and signs -/

theorem readsPower_power {b e : Phrase} {g g' : Gap} {doubled : Bool} (hb : b.ReadsAtom)
    (hbp : b.proper = true) (he : e.ReadsSigned) : (power b g doubled g' e).ReadsPower := by
  intro fuel rest hfuel hrest
  have hlength := tokens_pos hbp
  rw [tokens_power] at hfuel ⊢
  simp only [List.length_cons, List.length_append] at hfuel
  obtain ⟨fuel, rfl⟩ : ∃ k, fuel = k + 1 := ⟨fuel - 1, by omega⟩
  have hsign : NoTrailer (.mark "**" :: (e.tokens ++ rest)) := by
    constructor <;> simp
  obtain ⟨x, hx, hxtree⟩ := hb fuel (.mark "**" :: (e.tokens ++ rest)) (by omega) hsign
  obtain ⟨y, hy, hytree⟩ := he fuel rest (by omega) hrest
  refine ⟨.binary .power x y, ?_, ?_⟩
  · rw [List.append_assoc, List.cons_append, readPower_eq, hx, Option.bind_some]
    show (readSigned fuel (e.tokens ++ rest)).bind _ = _
    rw [hy]
    rfl
  · show Expr.binary .power x.identify y.identify = .binary .power b.tree.identify e.tree.identify
    rw [hxtree, hytree]

theorem readsSigned_minus {g : Gap} (h : p.ReadsSigned) : (minus g p).ReadsSigned := by
  intro fuel rest hfuel hrest
  rw [tokens_minus] at hfuel ⊢
  simp only [List.length_cons] at hfuel
  obtain ⟨fuel, rfl⟩ : ∃ k, fuel = k + 1 := ⟨fuel - 1, by omega⟩
  obtain ⟨x, hx, htree⟩ := h fuel rest (by omega) hrest
  refine ⟨.signed .minus x, ?_, ?_⟩
  · rw [List.cons_append, readSigned_minus, hx]
    rfl
  · show Expr.signed .minus x.identify = .signed .minus p.tree.identify
    rw [htree]

/-! ## Sums, products and lists -/

/-- Two phrases with an operator between them, however it is written. -/
theorem readsSum_operator (op : Arith) {x y : Phrase} (hp : p.strength = op.strength)
    (htokens : p.tokens = x.tokens ++ op.token :: y.tokens)
    (htree : p.tree.identify = .binary op.operator x.tree.identify y.tree.identify)
    (hx : op.strength ≤ x.strength) (hy : op.strength < y.strength) (hxs : x.ReadsSum)
    (hys : y.ReadsSum) : p.ReadsSum := by
  intro s fuel rest hs hfuel hrest
  have hop : op.strength ≤ 3 := by cases op <;> simp [Arith.strength]
  rw [htokens] at hfuel ⊢
  simp only [List.length_cons, List.length_append] at hfuel ⊢
  rw [hp] at hs hrest
  obtain ⟨a, fuel₁, hfuel₁, hread₁, hatree⟩ := hxs s fuel (op.token :: (y.tokens ++ rest))
    (by omega) (by omega) (ends_operator (by omega) _)
  obtain ⟨k, rfl⟩ : ∃ k, fuel₁ = k + 1 := ⟨fuel₁ - 1, by omega⟩
  obtain ⟨b, fuel₂, hfuel₂, hread₂, hbtree⟩ := hys (op.strength + 6) k rest (by omega) (by omega)
    (hrest.mono (by omega))
  obtain ⟨j, rfl⟩ : ∃ j, fuel₂ = j + 1 := ⟨fuel₂ - 1, by omega⟩
  -- the right operand binds tighter than the operator, so behind it the reader goes on from the left
  refine ⟨.binary op.operator a b, k, by omega, ?_, ?_⟩
  · rw [List.append_assoc, List.cons_append, hread₁, readOperators_step hs, hread₂,
      readOperators_stop (hrest.mono (Nat.min_le_left _ _)) (Or.inl (by omega))]
    rfl
  · rw [htree, ← hatree, ← hbtree]
    rfl

theorem readItem_comma {fuel : Nat} {ts rest rest' : List Token} {x : Expr} {xs : List Expr}
    (hx : read fuel 0 ts = some (x, .mark "," :: rest))
    (hxs : readItems fuel ")" rest = some (xs, false, rest')) (hne : xs ≠ []) :
    readItem (fuel + 1) ")" ts = some (x :: xs, false, rest') := by
  rw [readItem, hx]
  show ((readItems fuel ")" rest).bind fun r => some (x :: r.1, r.2.1 || r.1.isEmpty, r.2.2)) = _
  rw [hxs]
  cases xs with
  | nil => exact absurd rfl hne
  | cons y ys => rfl

theorem readsItems_comma {x y : Phrase} {g g' : Gap} (hxs : x.ReadsSum) (hyp : y.proper = true)
    (hys : y.ReadsItems) : (comma x g g' y).ReadsItems := by
  intro fuel rest hfuel
  rw [tokens_comma] at hfuel ⊢
  simp only [List.length_cons, List.length_append] at hfuel
  obtain ⟨fuel, rfl⟩ : ∃ k, fuel = k + 1 := ⟨fuel - 1, by omega⟩
  obtain ⟨a, ha, hatree⟩ := readsItem_of_sum hxs fuel (y.tokens ++ .mark ")" :: rest) (by omega)
    (Or.inr rfl)
  obtain ⟨bs, hne, hbs, hbtree⟩ := readItems_phrase hyp hys fuel (by omega) rest
  refine ⟨a :: bs, List.cons_ne_nil _ _, ?_, ?_⟩
  · rw [List.append_assoc, List.cons_append]
    exact readItem_comma ha hbs hne
  · show a.identify :: identifyAll bs = x.tree.identify :: identifyAll y.tree.items
    rw [hatree, hbtree]

/-- **Every proper phrase is read back.** -/
theorem readable (p : Phrase) (hp : p.proper = true) : p.Readable := by
  induction p with
  | number n => exact readable_of_atom hp rfl (readsAtom_number n)
  | name w => exact readable_of_atom hp rfl (readsAtom_name w)
  | call f g args g' ih => exact readable_of_atom hp rfl (readsAtom_call hp (ih hp).items)
  | bare f g => exact readable_of_atom hp rfl (readsAtom_bare f g)
  | group g p g' ih =>
    have hparts := hp
    simp only [proper, Bool.and_eq_true, decide_eq_true_eq] at hparts
    exact readable_of_atom hp rfl (readsAtom_group hparts.2 hparts.1 (ih hparts.2).items)
  | power b g doubled g' e ihb ihe =>
    have hparts := hp
    simp only [proper, Bool.and_eq_true, beq_iff_eq, decide_eq_true_eq] at hparts
    obtain ⟨⟨⟨hb, he⟩, hbp⟩, hep⟩ := hparts
    exact readable_of_power hp rfl
      (readsPower_power ((ihb hbp).atom hb) hbp ((ihe hep).signed he))
  | minus g p ih =>
    have hparts := hp
    simp only [proper, Bool.and_eq_true, decide_eq_true_eq] at hparts
    exact readable_of_signed hp rfl (readsSigned_minus ((ih hparts.2).signed hparts.1))
  | binary op x g g' y ihx ihy =>
    have hparts := hp
    simp only [proper, Bool.and_eq_true, decide_eq_true_eq] at hparts
    obtain ⟨⟨⟨hx, hy⟩, hxp⟩, hyp⟩ := hparts
    have hop : 2 ≤ op.strength ∧ op.strength ≤ 3 := by cases op <;> simp [Arith.strength]
    exact readable_of_sum hp hop.1 hop.2 (readsSum_operator op rfl (tokens_binary op x g g' y) rfl
      hx hy ((ihx hxp).sum (by omega)) ((ihy hyp).sum (by omega)))
  | joint x y ihx ihy =>
    have hparts := hp
    simp only [proper, Bool.and_eq_true, decide_eq_true_eq] at hparts
    obtain ⟨⟨⟨⟨hx, hy⟩, -⟩, hxp⟩, hyp⟩ := hparts
    exact readable_of_sum hp (by simp [strength]) (Nat.le_refl _)
      (readsSum_operator .mul rfl (tokens_joint x y) rfl hx (by show 3 < y.strength; omega)
        ((ihx hxp).sum (by omega)) ((ihy hyp).sum (by omega)))
  | comma x g g' y ihx ihy =>
    have hparts := hp
    simp only [proper, Bool.and_eq_true, decide_eq_true_eq] at hparts
    obtain ⟨⟨hx, hxp⟩, hyp⟩ := hparts
    exact ⟨fun h => by simp [strength] at h, fun h => by simp [strength] at h,
      fun h => by simp [strength] at h, fun h => by simp [strength] at h,
      readsItems_comma ((ihx hxp).sum hx) hyp (ihy hyp).items⟩

/-- **The tokens of a phrase have its tree**, up to the spelling of powers. -/
theorem ofTokens?_tokens (hp : p.proper = true) (hstrength : 2 ≤ p.strength) :
    ∃ x, ofTokens? p.tokens = some x ∧ x.identify = p.tree.identify := by
  obtain ⟨xs, -, hread, htree⟩ := (readable p hp).items (fuelFor p.tokens.length) []
    (by unfold fuelFor; omega)
  obtain ⟨x, rfl, hx⟩ := singleton_of_items hp hstrength htree
  refine ⟨x, ?_, hx⟩
  unfold ofTokens? readTop
  rw [hread]
  rfl

end Phrase

end InitialValue.Formula
