/-
  Reading formulas with other names.

  The reader looks at names only to find the words of the grammar.  A renaming that keeps those
  words (`KeepsWords`) therefore commutes with reading (`Expr.ofTokens?_rename`): each stage of the
  reader commutes with it if the stages below do (`Expr.ReadsAlike`), and the fuel carries the
  induction.

  The names in a tree come from its tokens (`Expr.over_of_ofTokens?`).  That needs no second
  induction over the reader: a renaming that changes all other names leaves the tokens alone, and
  so the tree.
-/
import InitialValue.Formula.Expr
import Mathlib.Tactic.ByContra

namespace InitialValue.Formula

/-! ## Other names -/

/-- A token with another name. -/
def Token.rename (r : String → String) : Token → Token
  | .name s => .name (r s)
  | t => t

namespace Expr

mutual

/-- A tree with other names. -/
def rename (r : String → String) : Expr → Expr
  | .number l => .number l
  | .name s => .name (r s)
  | .signed s x => .signed s (rename r x)
  | .binary op x y => .binary op (rename r x) (rename r y)
  | .compare x rest => .compare (rename r x) (renameChain r rest)
  | .either x y => .either (rename r x) (rename r y)
  | .both x y => .both (rename r x) (rename r y)
  | .call f args => .call (rename r f) (renameAll r args)
  | .item x i => .item (rename r x) (rename r i)
  | .collection b items => .collection b (renameAll r items)
  | .pairs items => .pairs (renamePairs r items)

/-- Trees with other names. -/
def renameAll (r : String → String) : List Expr → List Expr
  | [] => []
  | x :: xs => rename r x :: renameAll r xs

/-- A chain of comparisons with other names. -/
def renameChain (r : String → String) : List (Comparison × Expr) → List (Comparison × Expr)
  | [] => []
  | (c, x) :: rest => (c, rename r x) :: renameChain r rest

/-- Pairs with other names. -/
def renamePairs (r : String → String) : List (Expr × Expr) → List (Expr × Expr)
  | [] => []
  | (x, y) :: rest => (rename r x, rename r y) :: renamePairs r rest

end

/-! ## Reading with other names -/

/-- The words of the grammar are kept, and no other name becomes one. -/
def KeepsWords (r : String → String) : Prop :=
  ∀ s, s ∈ reserved ∨ r s ∈ reserved → r s = s

section

variable {r : String → String}

theorem KeepsWords.eq_iff (h : KeepsWords r) {w : String} (hw : w ∈ reserved) (s : String) :
    r s = w ↔ s = w := by
  constructor
  · intro hs
    rw [← h s (Or.inr (hs ▸ hw)), hs]
  · rintro rfl
    exact h _ (Or.inl hw)

theorem KeepsWords.contains (h : KeepsWords r) (s : String) :
    reserved.contains (r s) = reserved.contains s := by
  rw [Bool.eq_iff_iff, List.contains_iff_mem, List.contains_iff_mem]
  exact ⟨fun hs => by rwa [h s (Or.inr hs)] at hs, fun hs => by rwa [h s (Or.inl hs)]⟩

/-- A token that is not a word of the grammar does not become it. -/
theorem KeepsWords.token_ne (h : KeepsWords r) {w : String} (hw : w ∈ reserved) {t : Token}
    (ht : t ≠ .name w) : t.rename r ≠ .name w := by
  cases t with
  | name s => exact fun hs => ht (congrArg Token.name ((h.eq_iff hw s).mp (Token.name.inj hs)))
  | number l => exact ht
  | mark m => exact ht

theorem comparison?_rename (h : KeepsWords r) (t : Token) :
    comparison? (t.rename r) = comparison? t := by
  cases t with
  | name s =>
    by_cases his : s = "is"
    · subst his
      have hr : r "is" = "is" := h _ (Or.inl (by decide))
      show comparison? (.name (r "is")) = _
      rw [hr]
    · by_cases hin : s = "in"
      · subst hin
        have hr : r "in" = "in" := h _ (Or.inl (by decide))
        show comparison? (.name (r "in")) = _
        rw [hr]
      · have his' : r s ≠ "is" := fun hs => his ((h.eq_iff (by decide) s).mp hs)
        have hin' : r s ≠ "in" := fun hs => hin ((h.eq_iff (by decide) s).mp hs)
        show comparison? (.name (r s)) = comparison? (.name s)
        unfold comparison?
        simp [his, hin, his', hin']
  | number l => rfl
  | mark m => rfl

/-- Marks stay what they are, and no other token becomes one. -/
theorem not_starts_renamed {ts : List Token} {m : String}
    (h : ∀ rest, ts = .mark m :: rest → False) :
    ∀ rest, ts.map (Token.rename r) = .mark m :: rest → False := by
  intro rest hrest
  obtain ⟨t, more, rfl, ht, -⟩ := List.map_eq_cons_iff.mp hrest
  cases t <;> cases ht
  exact h more rfl

/-- What reading gives, with other names. -/
def renameRead {α β : Type} (f : α → β) (r : String → String) (p : α × List Token) :
    β × List Token :=
  (f p.1, p.2.map (Token.rename r))

/-- What reading items gives, with other names. -/
def renameItems (r : String → String) (p : List Expr × Bool × List Token) :
    List Expr × Bool × List Token :=
  (renameAll r p.1, p.2.1, p.2.2.map (Token.rename r))

/-- Reading with some fuel does not depend on the names. -/
structure ReadsAlike (r : String → String) (fuel : Nat) : Prop where
  read : ∀ k ts, Expr.read fuel k (ts.map (Token.rename r)) =
    (Expr.read fuel k ts).map (renameRead (rename r) r)
  readSigned : ∀ ts, Expr.readSigned fuel (ts.map (Token.rename r)) =
    (Expr.readSigned fuel ts).map (renameRead (rename r) r)
  readPower : ∀ ts, Expr.readPower fuel (ts.map (Token.rename r)) =
    (Expr.readPower fuel ts).map (renameRead (rename r) r)
  readAtom : ∀ ts, Expr.readAtom fuel (ts.map (Token.rename r)) =
    (Expr.readAtom fuel ts).map (renameRead (rename r) r)
  readTrailers : ∀ x ts, Expr.readTrailers fuel (rename r x) (ts.map (Token.rename r)) =
    (Expr.readTrailers fuel x ts).map (renameRead (rename r) r)
  readItems : ∀ close ts, Expr.readItems fuel close (ts.map (Token.rename r)) =
    (Expr.readItems fuel close ts).map (renameItems r)
  readItem : ∀ close ts, Expr.readItem fuel close (ts.map (Token.rename r)) =
    (Expr.readItem fuel close ts).map (renameItems r)
  readPairs : ∀ ts, Expr.readPairs fuel (ts.map (Token.rename r)) =
    (Expr.readPairs fuel ts).map (renameRead (renamePairs r) r)
  readOperators : ∀ k x ts, Expr.readOperators fuel k (rename r x) (ts.map (Token.rename r)) =
    (Expr.readOperators fuel k x ts).map (renameRead (rename r) r)
  readChain : ∀ ts, Expr.readChain fuel (ts.map (Token.rename r)) =
    (Expr.readChain fuel ts).map (renameRead (renameChain r) r)

theorem readsAlike_zero : ReadsAlike r 0 := by
  constructor <;> intros <;> simp only [Expr.read, Expr.readSigned, Expr.readPower, Expr.readAtom,
    Expr.readTrailers, Expr.readItems, Expr.readItem, Expr.readPairs, Expr.readOperators,
    Expr.readChain, Option.map_none]

/-- A stage of reading after another one. -/
theorem bind_renamed {α α' β β' : Type} {x : Option α} {x' : Option α'} {f : α → α'} {g : β → β'}
    {k : α → Option β} {k' : α' → Option β'} (hx : x' = x.map f)
    (hk : ∀ a, k' (f a) = (k a).map g) : x'.bind k' = (x.bind k).map g := by
  subst hx
  cases x with
  | none => rfl
  | some a => exact hk a

variable {fuel : Nat}

theorem ReadsAlike.read_succ (h : ReadsAlike r fuel) (k : Nat) (ts : List Token) :
    Expr.read (fuel + 1) k (ts.map (Token.rename r)) =
      (Expr.read (fuel + 1) k ts).map (renameRead (rename r) r) := by
  rw [Expr.read, Expr.read]
  exact bind_renamed (h.readSigned ts) fun p => h.readOperators k p.1 p.2

theorem ReadsAlike.readSigned_succ (h : ReadsAlike r fuel) (ts : List Token) :
    Expr.readSigned (fuel + 1) (ts.map (Token.rename r)) =
      (Expr.readSigned (fuel + 1) ts).map (renameRead (rename r) r) := by
  rcases ts with _ | ⟨t, rest⟩
  · rw [List.map_nil, Expr.readSigned]
    · exact h.readPower []
    · simp
  · cases t with
    | mark m =>
      rw [List.map_cons]
      show Expr.readSigned (fuel + 1) (.mark m :: rest.map (Token.rename r)) = _
      rw [Expr.readSigned, Expr.readSigned]
      cases sign? m with
      | none => exact h.readPower (.mark m :: rest)
      | some s => exact bind_renamed (h.readSigned rest) fun p => rfl
    | name s =>
      rw [List.map_cons, Expr.readSigned, Expr.readSigned]
      · exact h.readPower (.name s :: rest)
      · simp
      · simp [Token.rename]
    | number l =>
      rw [List.map_cons, Expr.readSigned, Expr.readSigned]
      · exact h.readPower (.number l :: rest)
      · simp
      · simp [Token.rename]

theorem ReadsAlike.readPower_succ (h : ReadsAlike r fuel) (ts : List Token) :
    Expr.readPower (fuel + 1) (ts.map (Token.rename r)) =
      (Expr.readPower (fuel + 1) ts).map (renameRead (rename r) r) := by
  rw [Expr.readPower, Expr.readPower]
  refine bind_renamed (h.readAtom ts) fun p => bind_renamed (h.readTrailers p.1 p.2) fun q => ?_
  obtain ⟨x, rest⟩ := q
  dsimp only
  rcases rest with _ | ⟨t, rest⟩
  · rfl
  · cases t with
    | mark m =>
      by_cases hm : m = "**"
      · subst hm
        exact bind_renamed (h.readSigned rest) fun p => rfl
      · simp [Token.rename, renameRead, hm]
    | name s => rfl
    | number l => rfl

theorem isEmpty_renameAll (items : List Expr) :
    (renameAll r items).isEmpty = items.isEmpty := by
  cases items <;> rfl

theorem ReadsAlike.readAtom_succ (hr : KeepsWords r) (h : ReadsAlike r fuel) (ts : List Token) :
    Expr.readAtom (fuel + 1) (ts.map (Token.rename r)) =
      (Expr.readAtom (fuel + 1) ts).map (renameRead (rename r) r) := by
  rcases ts with _ | ⟨t, rest⟩
  · rfl
  · cases t with
    | name s =>
      show Expr.readAtom (fuel + 1) (.name (r s) :: rest.map (Token.rename r)) = _
      rw [Expr.readAtom, Expr.readAtom, hr.contains]
      split <;> rfl
    | number l => rfl
    | mark m =>
      show Expr.readAtom (fuel + 1) (.mark m :: rest.map (Token.rename r)) = _
      by_cases hround : m = "("
      · subst hround
        rw [Expr.readAtom, Expr.readAtom]
        refine bind_renamed (h.readItems ")" rest) fun p => ?_
        obtain ⟨items, comma, rest⟩ := p
        rcases items with _ | ⟨x, _ | ⟨z, items⟩⟩ <;> cases comma <;> rfl
      by_cases hsquare : m = "["
      · subst hsquare
        rw [Expr.readAtom, Expr.readAtom]
        refine bind_renamed (h.readItems "]" rest) fun p => ?_
        rfl
      by_cases hcurly : m = "\x7b"
      · subst hcurly
        -- braces without pairs hold nothing, or else items
        by_cases hclose : ∃ more, rest = .mark "\x7d" :: more
        · obtain ⟨more, rfl⟩ := hclose
          rfl
        · rw [Expr.readAtom, Expr.readAtom, h.readPairs]
          · cases Expr.readPairs fuel rest with
            | some p => rfl
            | none =>
              refine bind_renamed (h.readItems "\x7d" rest) fun p => ?_
              rfl
          · exact fun more hmore => hclose ⟨more, hmore⟩
          · exact not_starts_renamed fun more hmore => hclose ⟨more, hmore⟩
      · rw [Expr.readAtom, Expr.readAtom] <;> simp [hround, hsquare, hcurly]

theorem ReadsAlike.readTrailers_succ (h : ReadsAlike r fuel) (x : Expr) (ts : List Token) :
    Expr.readTrailers (fuel + 1) (rename r x) (ts.map (Token.rename r)) =
      (Expr.readTrailers (fuel + 1) x ts).map (renameRead (rename r) r) := by
  rcases ts with _ | ⟨t, rest⟩
  · rfl
  · cases t with
    | name s => rfl
    | number l => rfl
    | mark m =>
      show Expr.readTrailers (fuel + 1) (rename r x) (.mark m :: rest.map (Token.rename r)) = _
      by_cases hround : m = "("
      · subst hround
        rw [Expr.readTrailers, Expr.readTrailers]
        refine bind_renamed (h.readItems ")" rest) fun p => ?_
        have hcall := h.readTrailers (.call x p.1) p.2.2
        rwa [rename] at hcall
      by_cases hsquare : m = "["
      · subst hsquare
        rw [Expr.readTrailers, Expr.readTrailers]
        refine bind_renamed (h.readItems "]" rest) fun p => ?_
        obtain ⟨items, comma, rest⟩ := p
        rcases items with _ | ⟨i, _ | ⟨z, items⟩⟩
        · rfl
        · cases comma with
          | false =>
            have hitem := h.readTrailers (.item x i) rest
            rwa [rename] at hitem
          | true =>
            have hitem := h.readTrailers (.item x (.collection .round [i])) rest
            rwa [rename, rename] at hitem
        · have hitem := h.readTrailers (.item x (.collection .round (i :: z :: items))) rest
          rwa [rename, rename] at hitem
      · rw [Expr.readTrailers, Expr.readTrailers] <;>
          simp [hround, hsquare, renameRead, Token.rename]

theorem ReadsAlike.readItems_succ (h : ReadsAlike r fuel) (close : String) (ts : List Token) :
    Expr.readItems (fuel + 1) close (ts.map (Token.rename r)) =
      (Expr.readItems (fuel + 1) close ts).map (renameItems r) := by
  rcases ts with _ | ⟨t, rest⟩
  · exact h.readItem close []
  · cases t with
    | name s => exact h.readItem close (.name s :: rest)
    | number l => exact h.readItem close (.number l :: rest)
    | mark m =>
      show Expr.readItems (fuel + 1) close (.mark m :: rest.map (Token.rename r)) = _
      rw [Expr.readItems, Expr.readItems]
      split
      · rfl
      · exact h.readItem close (.mark m :: rest)

theorem ReadsAlike.readItem_succ (h : ReadsAlike r fuel) (close : String) (ts : List Token) :
    Expr.readItem (fuel + 1) close (ts.map (Token.rename r)) =
      (Expr.readItem (fuel + 1) close ts).map (renameItems r) := by
  rw [Expr.readItem, Expr.readItem]
  refine bind_renamed (h.read 0 ts) fun p => ?_
  obtain ⟨x, rest⟩ := p
  rcases rest with _ | ⟨t, rest⟩
  · rfl
  · cases t with
    | name s => rfl
    | number l => rfl
    | mark m =>
      by_cases hm : m = ","
      · subst hm
        refine bind_renamed (h.readItems close rest) fun p => ?_
        obtain ⟨items, comma, rest⟩ := p
        show some (rename r x :: renameAll r items, comma || (renameAll r items).isEmpty, _) = _
        rw [isEmpty_renameAll]
        rfl
      · by_cases hclose : (m == close) = true <;>
          simp [hclose, renameRead, Token.rename, renameItems, renameAll]

/-- What pairs go on with behind the first of them. -/
def pairsBehind (fuel : Nat) (p : Expr × Expr) :
    List Token → Option (List (Expr × Expr) × List Token)
  | .mark "\x7d" :: rest => some ([p], rest)
  | .mark "," :: .mark "\x7d" :: rest => some ([p], rest)
  | .mark "," :: rest => (Expr.readPairs fuel rest).bind fun q => some (p :: q.1, q.2)
  | _ => none

theorem readPairs_eq (ts : List Token) :
    Expr.readPairs (fuel + 1) ts = (Expr.read fuel 0 ts).bind fun p =>
      match p.2 with
      | .mark ":" :: rest =>
        (Expr.read fuel 0 rest).bind fun q => pairsBehind fuel (p.1, q.1) q.2
      | _ => none := by
  rw [Expr.readPairs]
  rfl

theorem ReadsAlike.pairsBehind_renamed (h : ReadsAlike r fuel) (p : Expr × Expr)
    (ts : List Token) :
    pairsBehind fuel (rename r p.1, rename r p.2) (ts.map (Token.rename r)) =
      (pairsBehind fuel p ts).map (renameRead (renamePairs r) r) := by
  fun_cases pairsBehind fuel p ts
  case case1 => rfl
  case case2 => rfl
  case case3 rest hclose =>
    rw [List.map_cons, Token.rename, pairsBehind]
    · exact bind_renamed (h.readPairs rest) fun q => rfl
    · exact not_starts_renamed hclose
    · simp
  case case4 hclose hboth hcomma =>
    rw [pairsBehind]
    · rfl
    · exact not_starts_renamed hclose
    · exact fun more => not_starts_renamed hcomma _
    · exact not_starts_renamed hcomma

theorem ReadsAlike.readPairs_succ (h : ReadsAlike r fuel) (ts : List Token) :
    Expr.readPairs (fuel + 1) (ts.map (Token.rename r)) =
      (Expr.readPairs (fuel + 1) ts).map (renameRead (renamePairs r) r) := by
  rw [readPairs_eq, readPairs_eq]
  refine bind_renamed (h.read 0 ts) fun p => ?_
  obtain ⟨x, rest⟩ := p
  by_cases hcolon : ∃ more, rest = .mark ":" :: more
  · obtain ⟨more, rfl⟩ := hcolon
    exact bind_renamed (h.read 0 more) fun q => h.pairsBehind_renamed (x, q.1) q.2
  · -- without a colon, neither text reads as pairs
    have hother : ∀ more, rest = .mark ":" :: more → False := fun more hmore =>
      hcolon ⟨more, hmore⟩
    dsimp only [renameRead]
    split
    · exact absurd ‹_› (not_starts_renamed hother _)
    · rfl

/-- Operators behind an operand that are no words. -/
theorem readOperators_eq {k : Nat} {x : Expr} {t : Token} {rest : List Token}
    (hor : t ≠ .name "or") (hand : t ≠ .name "and") :
    Expr.readOperators (fuel + 1) k x (t :: rest) =
      match comparison? t with
      | some _ =>
        if k ≤ comparing then
          (Expr.readChain fuel (t :: rest)).bind fun p =>
            Expr.readOperators fuel k (.compare x p.1) p.2
        else some (x, t :: rest)
      | none =>
        match t with
        | .mark m =>
          match operator? m with
          | some (op, s) =>
            if k ≤ s then
              (Expr.read fuel (s + 1) rest).bind fun p =>
                Expr.readOperators fuel k (.binary op x p.1) p.2
            else some (x, t :: rest)
          | none => some (x, t :: rest)
        | _ => some (x, t :: rest) := by
  cases t with
  | name s =>
    rw [Expr.readOperators]
    · rfl
    · exact hor
    · exact hand
    · exact fun m hm => by cases hm
  | number l => rfl
  | mark m => rfl

theorem ReadsAlike.readOperators_succ (hr : KeepsWords r) (h : ReadsAlike r fuel) (k : Nat)
    (x : Expr) (ts : List Token) :
    Expr.readOperators (fuel + 1) k (rename r x) (ts.map (Token.rename r)) =
      (Expr.readOperators (fuel + 1) k x ts).map (renameRead (rename r) r) := by
  rcases ts with _ | ⟨t, rest⟩
  · rfl
  by_cases hor : t = .name "or"
  · subst hor
    have hword : r "or" = "or" := hr _ (Or.inl (by decide))
    rw [List.map_cons, Token.rename, hword, Expr.readOperators, Expr.readOperators]
    split
    · refine bind_renamed (h.read 2 rest) fun p => ?_
      have heither := h.readOperators k (.either x p.1) p.2
      rwa [rename] at heither
    · simp [renameRead, Token.rename, hword]
  by_cases hand : t = .name "and"
  · subst hand
    have hword : r "and" = "and" := hr _ (Or.inl (by decide))
    rw [List.map_cons, Token.rename, hword, Expr.readOperators, Expr.readOperators]
    split
    · refine bind_renamed (h.read 3 rest) fun p => ?_
      have hboth := h.readOperators k (.both x p.1) p.2
      rwa [rename] at hboth
    · simp [renameRead, Token.rename, hword]
  have hor' : t.rename r ≠ .name "or" := hr.token_ne (by decide) hor
  have hand' : t.rename r ≠ .name "and" := hr.token_ne (by decide) hand
  rw [List.map_cons, readOperators_eq hor' hand', readOperators_eq hor hand,
    comparison?_rename hr]
  cases hcompare : comparison? t with
  | some c =>
    dsimp only
    split
    · refine bind_renamed (h.readChain (t :: rest)) fun p => ?_
      have hchain := h.readOperators k (.compare x p.1) p.2
      rwa [rename] at hchain
    · rfl
  | none =>
    cases t with
    | name s => rfl
    | number l => rfl
    | mark m =>
      show (match operator? m with | some (op, s) => _ | none => _) = _
      dsimp only
      cases hop : operator? m with
      | none => rfl
      | some p =>
        obtain ⟨op, s⟩ := p
        dsimp only
        split
        · refine bind_renamed (h.read (s + 1) rest) fun p => ?_
          have hbinary := h.readOperators k (.binary op x p.1) p.2
          rwa [rename] at hbinary
        · rfl

theorem ReadsAlike.readChain_succ (hr : KeepsWords r) (h : ReadsAlike r fuel) (ts : List Token) :
    Expr.readChain (fuel + 1) (ts.map (Token.rename r)) =
      (Expr.readChain (fuel + 1) ts).map (renameRead (renameChain r) r) := by
  rcases ts with _ | ⟨t, rest⟩
  · rfl
  · rw [List.map_cons, Expr.readChain, Expr.readChain]
    dsimp only
    rw [comparison?_rename hr]
    cases comparison? t with
    | none => rfl
    | some c =>
      exact bind_renamed (h.read (comparing + 1) rest) fun p =>
        bind_renamed (h.readChain p.2) fun q => rfl

/-- **Reading does not depend on the names**, as long as the words of the grammar stay what they
    are. -/
theorem readsAlike (hr : KeepsWords r) : (fuel : Nat) → ReadsAlike r fuel
  | 0 => readsAlike_zero
  | fuel + 1 =>
    have h := readsAlike hr fuel
    { read := h.read_succ
      readSigned := h.readSigned_succ
      readPower := h.readPower_succ
      readAtom := h.readAtom_succ hr
      readTrailers := h.readTrailers_succ
      readItems := h.readItems_succ
      readItem := h.readItem_succ
      readPairs := h.readPairs_succ
      readOperators := h.readOperators_succ hr
      readChain := h.readChain_succ hr }

theorem ofTokens?_rename (hr : KeepsWords r) (ts : List Token) :
    ofTokens? (ts.map (Token.rename r)) = (ofTokens? ts).map (rename r) := by
  unfold ofTokens? readTop
  rw [List.length_map]
  have hclose : ts.map (Token.rename r) ++ [Token.mark ")"] =
      (ts ++ [Token.mark ")"]).map (Token.rename r) := by
    rw [List.map_append]
    rfl
  rw [hclose]
  refine bind_renamed ((readsAlike hr _).readItem ")" (ts ++ [Token.mark ")"])) fun p => ?_
  obtain ⟨items, comma, rest⟩ := p
  rcases rest with _ | ⟨t, rest⟩
  · rcases items with _ | ⟨x, _ | ⟨y, items⟩⟩ <;> cases comma <;> rfl
  · rfl

end

/-! ## The names in a tree -/

mutual

/-- All names in the tree have a property. -/
def Over (S : String → Prop) : Expr → Prop
  | .number _ => True
  | .name s => S s
  | .signed _ x => Over S x
  | .binary _ x y => Over S x ∧ Over S y
  | .compare x rest => Over S x ∧ ChainOver S rest
  | .either x y => Over S x ∧ Over S y
  | .both x y => Over S x ∧ Over S y
  | .call f args => Over S f ∧ AllOver S args
  | .item x i => Over S x ∧ Over S i
  | .collection _ items => AllOver S items
  | .pairs items => PairsOver S items

/-- All names in the trees have a property. -/
def AllOver (S : String → Prop) : List Expr → Prop
  | [] => True
  | x :: xs => Over S x ∧ AllOver S xs

/-- All names in a chain of comparisons have a property. -/
def ChainOver (S : String → Prop) : List (Comparison × Expr) → Prop
  | [] => True
  | (_, x) :: rest => Over S x ∧ ChainOver S rest

/-- All names in pairs have a property. -/
def PairsOver (S : String → Prop) : List (Expr × Expr) → Prop
  | [] => True
  | (x, y) :: rest => Over S x ∧ Over S y ∧ PairsOver S rest

end

section

variable {r : String → String} {S : String → Prop}

mutual

/-- A renaming that leaves a tree alone changes none of the names in it. -/
theorem over_of_rename_eq (hS : ∀ s, r s = s → S s) : (x : Expr) → rename r x = x → x.Over S
  | .number _, _ => trivial
  | .name s, h => hS s (Expr.name.inj h)
  | .signed _ x, h => over_of_rename_eq hS x (Expr.signed.inj h).2
  | .binary _ x y, h =>
    have ⟨_, hx, hy⟩ := Expr.binary.inj h
    ⟨over_of_rename_eq hS x hx, over_of_rename_eq hS y hy⟩
  | .compare x rest, h =>
    have ⟨hx, hrest⟩ := Expr.compare.inj h
    ⟨over_of_rename_eq hS x hx, chainOver_of_rename_eq hS rest hrest⟩
  | .either x y, h =>
    have ⟨hx, hy⟩ := Expr.either.inj h
    ⟨over_of_rename_eq hS x hx, over_of_rename_eq hS y hy⟩
  | .both x y, h =>
    have ⟨hx, hy⟩ := Expr.both.inj h
    ⟨over_of_rename_eq hS x hx, over_of_rename_eq hS y hy⟩
  | .call f args, h =>
    have ⟨hf, hargs⟩ := Expr.call.inj h
    ⟨over_of_rename_eq hS f hf, allOver_of_rename_eq hS args hargs⟩
  | .item x i, h =>
    have ⟨hx, hi⟩ := Expr.item.inj h
    ⟨over_of_rename_eq hS x hx, over_of_rename_eq hS i hi⟩
  | .collection _ items, h => allOver_of_rename_eq hS items (Expr.collection.inj h).2
  | .pairs items, h => pairsOver_of_rename_eq hS items (Expr.pairs.inj h)

theorem allOver_of_rename_eq (hS : ∀ s, r s = s → S s) :
    (xs : List Expr) → renameAll r xs = xs → AllOver S xs
  | [], _ => trivial
  | x :: xs, h =>
    have ⟨hx, hxs⟩ := List.cons.inj h
    ⟨over_of_rename_eq hS x hx, allOver_of_rename_eq hS xs hxs⟩

theorem chainOver_of_rename_eq (hS : ∀ s, r s = s → S s) :
    (xs : List (Comparison × Expr)) → renameChain r xs = xs → ChainOver S xs
  | [], _ => trivial
  | (_, x) :: rest, h =>
    have ⟨hx, hrest⟩ := List.cons.inj h
    ⟨over_of_rename_eq hS x (Prod.mk.inj hx).2, chainOver_of_rename_eq hS rest hrest⟩

theorem pairsOver_of_rename_eq (hS : ∀ s, r s = s → S s) :
    (xs : List (Expr × Expr)) → renamePairs r xs = xs → PairsOver S xs
  | [], _ => trivial
  | (x, y) :: rest, h =>
    have ⟨hxy, hrest⟩ := List.cons.inj h
    ⟨over_of_rename_eq hS x (Prod.mk.inj hxy).1, over_of_rename_eq hS y (Prod.mk.inj hxy).2,
      pairsOver_of_rename_eq hS rest hrest⟩

end

end

/-- **The names in a tree stand among the tokens** that it was read from. -/
theorem over_of_ofTokens? {ts : List Token} {x : Expr} (h : ofTokens? ts = some x) :
    x.Over fun s => .name s ∈ ts ∨ s ∈ reserved := by
  classical
  -- a renaming that changes all other names does not change what is read
  let r : String → String := fun s =>
    if .name s ∈ ts ∨ s ∈ reserved then s else if s = "x" then "y" else "x"
  have hr : KeepsWords r := by
    rintro s (hs | hs)
    · exact if_pos (Or.inr hs)
    · by_contra hne
      have hs' : ¬ (.name s ∈ ts ∨ s ∈ reserved) := fun hs' => hne (if_pos hs')
      have hx : r s = if s = "x" then "y" else "x" := if_neg hs'
      rw [hx] at hs
      split at hs <;> exact absurd hs (by decide)
  have hts : ts.map (Token.rename r) = ts := by
    refine (List.map_congr_left fun t ht => ?_).trans (List.map_id ts)
    cases t with
    | name s => exact congrArg Token.name (if_pos (Or.inl ht))
    | number l => rfl
    | mark m => rfl
  have hx := ofTokens?_rename hr ts
  rw [hts, h] at hx
  refine over_of_rename_eq (fun s hs => ?_) x (Option.some.inj hx).symm
  by_contra hne
  have hs' : r s = if s = "x" then "y" else "x" := if_neg hne
  rw [hs] at hs'
  split at hs' <;> grind

end Expr

end InitialValue.Formula
