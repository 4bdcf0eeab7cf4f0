/-
  The equation of a formula, whatever the state is called.

  Its tokens are those of the plain formula with another name for the state, so the grammar reads
  the same tree with another name (`Expr.ofTokens?_rename`), and a tree with other names means the
  same in a scope that knows them (`Expr.meaning?_rename`).  The names of the formula with the other
  name stand where those of the plain formula stood, so the calculation is the same
  (`compile_named`).
-/
import InitialValue.Proofs.Formula.Evaluation
import InitialValue.Proofs.Formula.StateName.Scanning

namespace InitialValue.Formula

open InitialValue.Symbolic InitialValue.Text

/-! ## What a renamed tree means -/

namespace Expr

variable {ν : Type} {scope scope' : Scope ν} {r : String → String} {T : String → Prop}

/-- Another scope knows the other names, and names that a scope does not know stay. -/
def Follows (scope scope' : Scope ν) (r : String → String) (T : String → Prop) : Prop :=
  ∀ s, T s → scope' (r s) = scope s ∧ (scope s = none → r s = s)

theorem Follows.ofName (h : Follows scope scope' r T) {s : String} (hs : T s) :
    Meaning.ofName scope' (r s) = Meaning.ofName scope s := by
  obtain ⟨hscope, hstay⟩ := h s hs
  unfold Meaning.ofName
  rw [hscope]
  cases hnone : scope s with
  | some v => rfl
  | none => rw [hstay hnone]

/-- A name that means nothing stays. -/
theorem Follows.stranger (h : Follows scope scope' r T) {s u : String} (hs : T s)
    (hmeaning : Meaning.ofName scope s = .term (.stranger u)) : r s = s := by
  refine (h s hs).2 ?_
  cases hscope : scope s with
  | none => rfl
  | some v =>
    rw [Meaning.ofName, hscope] at hmeaning
    cases hmeaning

variable [Ord ν]

mutual

/-- **A tree with other names means the same** in a scope that knows the other names. -/
theorem meaning?_rename (h : Follows scope scope' r T) :
    (x : Expr) → x.Over T → (rename r x).meaning? scope' = x.meaning? scope
  | .number l, _ => rfl
  | .name s, hx => by rw [rename, meaning?, meaning?, h.ofName hx]
  | .signed s x, hx => by rw [rename, meaning?, meaning?, meaning?_rename h x hx]
  | .binary op x y, hx => by
    rw [rename, meaning?, meaning?, meaning?_rename h x hx.1, meaning?_rename h y hx.2]
  | .compare x rest, hx => by
    rw [rename, meaning?, meaning?, meaning?_rename h x hx.1]
    simp only [chain?_rename h rest hx.2]
  | .either x y, hx => by
    rw [rename, meaning?, meaning?, meaning?_rename h x hx.1, meaning?_rename h y hx.2]
  | .both x y, hx => by
    rw [rename, meaning?, meaning?, meaning?_rename h x hx.1, meaning?_rename h y hx.2]
  | .call f args, hx => by
    have hf := meaning?_rename h f hx.1
    rw [rename, meaning?, meaning?, meanings?_rename h args hx.2]
    congr 1
    funext vs
    cases f with
    | name s =>
      rw [rename]
      dsimp only
      rw [h.ofName hx.1]
      split
      · rename_i u hstranger
        rw [h.stranger hx.1 hstranger]
      · rfl
    | _ => exact congrArg (· >>= fun g => g.call? vs) hf
  | .item x i, hx => by
    rw [rename, meaning?, meaning?, meaning?_rename h x hx.1, meaning?_rename h i hx.2]
  | .collection b items, hx => by
    rw [rename, meaning?, meaning?, meanings?_rename h items hx]
  | .pairs items, hx => by rw [rename, meaning?, meaning?, pairs?_rename h items hx]

theorem meanings?_rename (h : Follows scope scope' r T) :
    (xs : List Expr) → AllOver T xs → meanings? scope' (renameAll r xs) = meanings? scope xs
  | [], _ => rfl
  | x :: xs, hx => by
    rw [renameAll, meanings?, meanings?, meaning?_rename h x hx.1, meanings?_rename h xs hx.2]

theorem pairs?_rename (h : Follows scope scope' r T) :
    (xs : List (Expr × Expr)) → PairsOver T xs →
    pairs? scope' (renamePairs r xs) = pairs? scope xs
  | [], _ => rfl
  | (x, y) :: rest, hx => by
    rw [renamePairs, pairs?, pairs?, meaning?_rename h x hx.1, meaning?_rename h y hx.2.1,
      pairs?_rename h rest hx.2.2]

theorem chain?_rename (h : Follows scope scope' r T) :
    (rest : List (Comparison × Expr)) → ChainOver T rest →
    ∀ v : Meaning ν, chain? scope' v (renameChain r rest) = chain? scope v rest
  | [], _, v => rfl
  | [(c, x)], hx, v => by
    rw [renameChain, renameChain, chain?, chain?, meaning?_rename h x hx.1]
  | (c, x) :: p :: rest, hx, v => by
    have hrest := chain?_rename h (p :: rest) hx.2
    obtain ⟨c', x'⟩ := p
    rw [renameChain] at hrest
    rw [renameChain, renameChain, chain?, chain?, meaning?_rename h x hx.1]
    · simp only [hrest]
    all_goals simp

end

end Expr

/-! ## Places in renamed lists -/

/-- The place of a name in a list, as a number. -/
theorem placeOf?_val_cons (s a : String) (names : List String) :
    (placeOf? s (a :: names)).map Fin.val =
      if a = s then some 0 else ((placeOf? s names).map Fin.val).map Nat.succ := by
  rw [placeOf?]
  by_cases ha : a = s
  · rw [if_pos (beq_iff_eq.mpr ha), if_pos ha]
    rfl
  · rw [if_neg (by simpa using ha), if_neg ha, Option.map_map, Option.map_map]
    rfl

/-- A renamed name has the place of the name, if no other name of the list is renamed alike. -/
theorem placeOf?_map {r : String → String} {s : String} {names : List String}
    (hr : ∀ a ∈ names, r a = r s → a = s) :
    (placeOf? (r s) (names.map r)).map Fin.val = (placeOf? s names).map Fin.val := by
  induction names with
  | nil => rfl
  | cons a names ih =>
    rw [List.forall_mem_cons] at hr
    rw [List.map_cons, placeOf?_val_cons, placeOf?_val_cons, ih hr.2]
    exact if_congr ⟨hr.1, congrArg r⟩ rfl rfl

/-- The same calculation over as many names. -/
theorem exists_calculation {k k' : Nat} (h : k' = k) {scope : Scope (Fin k)}
    {scope' : Scope (Fin k')} {x x' : Expr}
    (hx : x'.meaning? (fun s => (scope' s).map (Fin.cast h)) = x.meaning? scope)
    {m : Meaning (Fin k)} {t : Term (Fin k)} {c : Calculation (Fin k)}
    (hm : x.meaning? scope = some m) (ht : m.toTerm = .ok t)
    (hc : Calculation.ofTerm? t = some c) :
    ∃ m' t', ∃ c' : Calculation (Fin k'), x'.meaning? scope' = some m' ∧ m'.toTerm = .ok t' ∧
      Calculation.ofTerm? t' = some c' ∧ ∀ symbols values,
        c'.run symbols values = c.run (fun i => symbols (Fin.cast h.symm i)) values := by
  subst h
  have hscope : (fun s => (scope' s).map (Fin.cast rfl)) = scope' := by
    funext s
    cases scope' s <;> rfl
  rw [hscope, hm] at hx
  exact ⟨m, t, c, hx, ht, hc, fun _ _ => rfl⟩

/-! ## Equations -/

namespace StateName

variable {w : List Char} {cs : List Cell}

theorem isPlainName_state (hw : IsStateName w) : Token.isPlainName (String.ofList w) = true := by
  obtain ⟨ds, rfl, hds⟩ := hw
  rw [Token.isPlainName, String.toList_ofList]
  refine List.all_eq_true.mpr fun c hc => ?_
  rcases List.mem_cons.mp hc with rfl | hc
  · decide
  · exact decide_eq_true (toNat_of_isPlainWord (isPlainWord_of_isDigit (hds c hc)))

theorem shallow_rename (hw : IsStateName w) (d : Nat) (ts : List Token) :
    Token.shallow d (ts.map (Token.rename (asNamed w))) = Token.shallow d ts := by
  have hname : ∀ s, Token.isPlainName (asNamed w s) = Token.isPlainName s := by
    intro s
    by_cases hs : s = "y"
    · subst hs
      rw [asNamed, if_pos rfl, isPlainName_state hw]
      decide
    · rw [asNamed, if_neg hs]
  induction ts generalizing d with
  | nil => rfl
  | cons t ts ih =>
    cases t with
    | name s =>
      rw [List.map_cons, Token.rename, Token.shallow, Token.shallow, hname, ih]
    | number l => exact congrArg (decide (d < Token.deepest) && ·) (ih d)
    | mark m =>
      rw [List.map_cons, Token.rename, Token.shallow, Token.shallow, ih, ih, ih]
      all_goals simp

theorem length_plain_le (hw : IsStateName w) : (plain cs).length ≤ (named w cs).length := by
  induction cs with
  | nil => exact Nat.le_refl 0
  | cons c cs ih =>
    cases c with
    | char a => exact Nat.succ_le_succ ih
    | state =>
      obtain ⟨ds, rfl, -⟩ := hw
      rw [plain_state, named_state, List.length_cons, List.length_append, List.length_cons]
      omega

theorem tokens?_named (hw : IsStateName w) (hascii : Ascii (plain cs))
    (hcs : Marked false cs false) {ts : List Token} (h : tokens? (plain cs) = some ts) :
    tokens? (named w cs) = some (ts.map (Token.rename (asNamed w))) := by
  unfold tokens? at h ⊢
  obtain ⟨us, hus, h⟩ := Option.bind_eq_some_iff.mp h
  have hfuel : (plain cs).length + 1 ≤ (named w cs).length + 1 :=
    Nat.add_le_add_right (length_plain_le hw) 1
  rw [Token.scan_mono (scan_named hw hascii hcs hus) hfuel]
  show (if Token.shallow 0 (us.map _) = true then _ else _) = _
  rw [shallow_rename hw]
  split at h
  · rename_i hshallow
    obtain rfl := Option.some.inj h
    rw [if_pos hshallow]
    rfl
  · cases h

/-- No word of the grammar is a name for the state. -/
theorem keepsWords_asNamed (hw : IsStateName w) : Expr.KeepsWords (asNamed w) := by
  have hreserved : ∀ s ∈ Expr.reserved, s.toList.head? ≠ some 'y' := by decide
  intro s hs
  by_cases hy : s = "y"
  · subst hy
    have hstate : asNamed w "y" = String.ofList w := if_pos rfl
    rw [hstate] at hs
    obtain ⟨ds, rfl, -⟩ := hw
    rcases hs with hs | hs
    · exact absurd rfl (hreserved _ hs)
    · exact absurd (by rw [String.toList_ofList]; rfl) (hreserved _ hs)
  · exact if_neg hy

/-- No word that may follow a number is a name for the state. -/
theorem not_beginsWithWord (hw : IsStateName w) : beginsWithWord (String.ofList w) = false := by
  obtain ⟨ds, rfl, -⟩ := hw
  rw [beginsWithWord, String.toList_ofList]
  refine List.any_eq_false.mpr fun v hv => ?_
  rw [not_word_of_component hv]
  decide

/-- A name for the state among the tokens is one of the names of the text. -/
theorem mem_namesIn_of_token {v : List Char} (hv : IsStateName v) {n : List Char}
    {ts : List Token} (hscanned : Token.Scanned n ts) (h : .name (String.ofList v) ∈ ts) :
    String.ofList v ∈ namesIn n := by
  obtain ⟨pre, post, hts⟩ := List.append_of_mem h
  rcases found_or_glued hscanned hts (isPlainName_state hv) with hfound | ⟨hword, -⟩
  · exact mem_namesIn.mpr ⟨hfound, isKnown_state hv⟩
  · rw [not_beginsWithWord hv] at hword
    cases hword

theorem ofList_ne_t (hw : IsStateName w) : "t" ≠ String.ofList w := by
  obtain ⟨ds, rfl, -⟩ := hw
  intro h
  have hword : ['t'] = 'y' :: ds := by
    rw [← String.toList_ofList (l := 'y' :: ds), ← h]
    rfl
  exact absurd (List.cons.inj hword).1 (by decide)

/-- The names of a formula with another name for the state stand where its own names stood. -/
theorem follows_named (hw : IsStateName w) {ts : List Token}
    (hscanned : Token.Scanned (plain cs) ts)
    (hnames : ∀ s ∈ namesIn (plain cs), s = "t" ∨ s = "y")
    (hnames' : namesIn (named w cs) = (namesIn (plain cs)).map (asNamed w))
    (hlength : (namesIn (named w cs)).length = (namesIn (plain cs)).length) :
    Expr.Follows (fun s => placeOf? s (namesIn (plain cs)))
      (fun s => (placeOf? s (namesIn (named w cs))).map (Fin.cast hlength)) (asNamed w)
      fun s => .name s ∈ ts ∨ s ∈ Expr.reserved := by
  have hreserved := keepsWords_asNamed hw
  intro s hs
  -- the state is found, and its other name did not occur
  have hfound : s = "y" → s ∈ namesIn (plain cs) := by
    rintro rfl
    rcases hs with hs | hs
    · exact mem_namesIn_of_token isStateName_y hscanned hs
    · exact absurd hs (by decide)
  have hother : s ≠ "y" → s ≠ String.ofList w := by
    rintro hne rfl
    rcases hs with hs | hs
    · rcases hnames _ (mem_namesIn_of_token hw hscanned hs) with ht | hstate
      · exact ofList_ne_t hw ht.symm
      · exact hne hstate
    · have hkept := hreserved "y" (Or.inr (by rwa [asNamed, if_pos rfl]))
      rw [asNamed, if_pos rfl] at hkept
      exact hne hkept
  constructor
  · refine Option.map_injective Fin.val_injective ?_
    rw [Option.map_map]
    show (placeOf? (asNamed w s) (namesIn (named w cs))).map Fin.val = _
    rw [hnames']
    refine placeOf?_map fun a ha heq => ?_
    by_cases hstate : s = "y"
    · subst hstate
      rcases hnames a ha with rfl | rfl
      · exact absurd heq (ofList_ne_t hw)
      · rfl
    · rw [asNamed, asNamed, if_neg hstate] at heq
      rcases hnames a ha with rfl | rfl
      · exact heq
      · exact absurd heq.symm (hother hstate)
  · intro hnone
    exact if_neg fun hstate => mem_of_placeOf?_none hnone (hfound hstate)

/-- **The equation of a formula**, whatever the state is called: it has the names of the plain
    formula with that of the state, and the same calculation. -/
theorem compile_named (hw : IsStateName w) {e : Equation} (hascii : Ascii (plain cs))
    (hcs : Marked false cs false) (hnames : ∀ s ∈ namesIn (plain cs), s = "t" ∨ s = "y")
    (h : Equation.compile (plain cs) = .ok e) :
    ∃ e', Equation.compile (named w cs) = .ok e' ∧ e'.names = e.names.map (asNamed w) ∧
      ∃ hlength : e'.names.length = e.names.length, ∀ symbols values,
        e'.calculation.run symbols values =
          e.calculation.run (fun i => symbols (Fin.cast hlength.symm i)) values := by
  obtain ⟨us, hus, hscanned⟩ := tokens_of_compile h
  obtain ⟨ts, x, m, t, c, hts, hx, hm, ht, hc, rfl⟩ := compile_eq_ok.mp h
  obtain rfl : ts = us := Option.some.inj (hts.symm.trans hus)
  have hnames' := namesIn_named hw hcs hnames
  have hlength : (namesIn (named w cs)).length = (namesIn (plain cs)).length := by
    rw [hnames', List.length_map]
  have hfollows := follows_named hw hscanned hnames hnames' hlength
  have hmeaning := Expr.meaning?_rename hfollows x (Expr.over_of_ofTokens? hx)
  obtain ⟨m', t', c', hm', ht', hc', hrun⟩ := exists_calculation hlength hmeaning hm ht hc
  have htokens := tokens?_named hw hascii hcs hts
  have htree := Expr.ofTokens?_rename (keepsWords_asNamed hw) ts
  rw [hx] at htree
  exact ⟨⟨namesIn (named w cs), c'⟩,
    compile_eq_ok.mpr ⟨_, _, m', t', c', htokens, htree, hm', ht', hc', rfl⟩, hnames', hlength,
    hrun⟩

end StateName

end InitialValue.Formula
