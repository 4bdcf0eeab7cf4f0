/-
  Texts that differ in what the state is called.

  A formula for one equation calls its state `y`, in a system it is called `y1`.  A `Cell` is a
  character of such a text, or the state where it stands as a word of its own; `named w` writes a
  list of cells with `w` for the state, and `plain` writes it with a `y`, one character a cell.

  A rule that substitutes in texts is asked two things: that it finds nothing in the middle of a
  name for the state (`Idle`), and that at any place between cells it finds and writes the same
  cells, whatever the state is called (`Respects`).  Then a whole pass writes the same cells
  (`apply_named`).  Where the state stands as a word must be seen from the cells (`Marked`), before
  and after the pass, so a rule may neither glue something to the state nor set a letter `y` free
  (`Neat`).
-/
import InitialValue.Proofs.Formula.Substitution
import InitialValue.Proofs.Text.Classes
import InitialValue.Proofs.Text.Runs
import Mathlib.Tactic.Cases

namespace InitialValue.Formula.StateName

open InitialValue.Text

/-! ## Cells -/

/-- A character of a formula, or the state where it stands as a name of its own. -/
inductive Cell where
  | char (c : Char)
  | state
  deriving DecidableEq

/-- A name for the state: a small `y`, possibly with a number. -/
def IsStateName (w : List Char) : Prop := ∃ ds, w = 'y' :: ds ∧ ∀ d ∈ ds, d.isDigit = true

theorem isStateName_y : IsStateName ['y'] := ⟨[], rfl, by simp⟩

namespace Cell

/-- The character that a cell begins with. -/
def first : Cell → Char
  | char c => c
  | state => 'y'

/-- A cell as it is written when the state is called `w`. -/
def text (w : List Char) : Cell → List Char
  | char c => [c]
  | state => w

/-- Does a cell belong to a class? -/
def is (p : Char → Bool) (c : Cell) : Bool := p c.first

/-- May a cell stand between others, of which is told whether they belong to words?  The state is a
    word of its own, and any other `y` is not. -/
def Fits (left : Bool) (c : Cell) (right : Bool) : Prop :=
  match c with
  | state => left = false ∧ right = false
  | char c => c = 'y' → left = true ∨ right = true

end Cell

/-- A text with a plain name for the state. -/
def plain (cs : List Cell) : List Char := cs.map Cell.first

/-- A text in which the state is called `w`. -/
def named (w : List Char) (cs : List Cell) : List Char := cs.flatMap (Cell.text w)

/-- How long the first cells are when the state is called `w`. -/
def span (w : List Char) (cs : List Cell) (n : Nat) : Nat := (named w (cs.take n)).length

section

variable {w : List Char} {cs xs ys : List Cell} {c : Cell} {p : Char → Bool} {n m : Nat}

@[simp] theorem plain_cons : plain (c :: cs) = c.first :: plain cs := rfl

theorem plain_char {a : Char} : plain (.char a :: cs) = a :: plain cs := rfl

theorem plain_state : plain (.state :: cs) = 'y' :: plain cs := rfl

@[simp] theorem plain_append : plain (xs ++ ys) = plain xs ++ plain ys := List.map_append

theorem plain_reverse : plain cs.reverse = (plain cs).reverse := List.map_reverse

theorem length_plain : (plain cs).length = cs.length := List.length_map _

theorem plain_take : (plain cs).take n = plain (cs.take n) := List.map_take.symm

theorem plain_drop : (plain cs).drop n = plain (cs.drop n) := List.map_drop.symm

@[simp] theorem named_nil : named w [] = [] := rfl

@[simp] theorem named_char {a : Char} : named w (.char a :: cs) = a :: named w cs := rfl

@[simp] theorem named_state : named w (.state :: cs) = w ++ named w cs := rfl

@[simp] theorem named_append : named w (xs ++ ys) = named w xs ++ named w ys :=
  List.flatMap_append

/-! ## Lengths -/

@[simp] theorem span_zero : span w cs 0 = 0 := by simp [span]

theorem span_char {a : Char} : span w (.char a :: cs) (n + 1) = span w cs n + 1 := by
  simp [span]

theorem span_state : span w (.state :: cs) (n + 1) = w.length + span w cs n := by
  simp [span]

theorem named_take : (named w cs).take (span w cs n) = named w (cs.take n) := by
  unfold span
  conv_lhs => rw [← List.take_append_drop n cs, named_append]
  rw [List.take_append_drop]
  exact List.take_left

theorem named_drop : (named w cs).drop (span w cs n) = named w (cs.drop n) := by
  unfold span
  conv_lhs => rw [← List.take_append_drop n cs, named_append]
  rw [List.take_append_drop]
  exact List.drop_left

theorem span_add : span w cs (n + m) = span w cs n + span w (cs.drop n) m := by
  unfold span
  rw [List.take_add, named_append, List.length_append]

/-! ## Classes -/

/-- A class that holds of all of a name for the state if it holds of its first letter. -/
def Steady (p : Char → Bool) : Prop := p 'y' = true → ∀ d : Char, d.isDigit = true → p d = true

theorem steady_isWord : Steady isWord := fun _ _ hd =>
  isWord_of_isPlainWord (isPlainWord_of_isDigit hd)

theorem steady_of_false (h : p 'y' = false) : Steady p := fun hy => by
  rw [h] at hy
  cases hy

variable (hw : IsStateName w)

include hw

theorem forall_of_steady (hp : Steady p) (hy : p 'y' = true) : ∀ d ∈ w, p d = true := by
  obtain ⟨ds, rfl, hds⟩ := hw
  exact List.forall_mem_cons.mpr ⟨hy, fun d hd => hp hy d (hds d hd)⟩

theorem takeWhile_named (hp : Steady p) :
    (named w cs).takeWhile p = named w (cs.takeWhile (Cell.is p)) := by
  induction cs with
  | nil => rfl
  | cons c cs ih =>
    cases c with
    | char a =>
      rw [named_char, List.takeWhile_cons, List.takeWhile_cons, ih]
      show (if p a = true then _ else _) = named w (if p a = true then _ else _)
      split <;> rfl
    | state =>
      rw [named_state, List.takeWhile_cons]
      show _ = named w (if p 'y' = true then _ else _)
      split
      · rename_i hy
        rw [List.takeWhile_append_of_pos (forall_of_steady hw hp hy), ih]
        rfl
      · rename_i hy
        obtain ⟨ds, rfl, -⟩ := hw
        rw [List.cons_append, List.takeWhile_cons, if_neg hy]
        rfl

theorem dropWhile_named (hp : Steady p) :
    (named w cs).dropWhile p = named w (cs.dropWhile (Cell.is p)) := by
  induction cs with
  | nil => rfl
  | cons c cs ih =>
    cases c with
    | char a =>
      rw [named_char, List.dropWhile_cons, List.dropWhile_cons, ih]
      show (if p a = true then _ else _) = named w (if p a = true then _ else _)
      split <;> rfl
    | state =>
      rw [named_state, List.dropWhile_cons]
      show _ = named w (if p 'y' = true then _ else _)
      split
      · rename_i hy
        rw [List.dropWhile_append_of_pos (forall_of_steady hw hp hy), ih]
      · rename_i hy
        obtain ⟨ds, rfl, -⟩ := hw
        rw [List.cons_append, List.dropWhile_cons, if_neg hy]
        rfl

omit hw in
theorem takeWhile_plain : (plain cs).takeWhile p = plain (cs.takeWhile (Cell.is p)) :=
  List.takeWhile_map

omit hw in
theorem dropWhile_plain : (plain cs).dropWhile p = plain (cs.dropWhile (Cell.is p)) :=
  List.dropWhile_map

omit hw in
theorem take_run : cs.take ((plain cs).takeWhile p).length = cs.takeWhile (Cell.is p) := by
  rw [takeWhile_plain, length_plain, ← List.prefix_iff_eq_take.mp (List.takeWhile_prefix _)]

/-- Runs of a class are as long as their cells. -/
theorem length_takeWhile_named (hp : Steady p) :
    ((named w cs).takeWhile p).length = span w cs ((plain cs).takeWhile p).length := by
  rw [takeWhile_named hw hp, span, take_run]

theorem head?_named : (named w cs).head? = (plain cs).head? := by
  cases cs with
  | nil => rfl
  | cons c cs =>
    cases c with
    | char a => rfl
    | state =>
      obtain ⟨ds, rfl, -⟩ := hw
      rfl

end

/-! ## What stands before a place -/

/-- The text before a place, nearest cell first, when the state is called `w`. -/
def namedBack (w : List Char) (bs : List Cell) : List Char := (named w bs.reverse).reverse

section

variable {w : List Char} {bs : List Cell} {q : Char → Bool}

theorem namedBack_char {a : Char} : namedBack w (.char a :: bs) = a :: namedBack w bs := by
  simp [namedBack]

theorem namedBack_state : namedBack w (.state :: bs) = w.reverse ++ namedBack w bs := by
  simp [namedBack]

theorem namedBack_append {xs : List Cell} :
    namedBack w (xs ++ bs) = namedBack w xs ++ namedBack w bs := by
  simp [namedBack]

theorem namedBack_reverse {xs : List Cell} : namedBack w xs.reverse = (named w xs).reverse := by
  simp [namedBack]

/-- The last character of a name for the state. -/
theorem exists_last (hw : IsStateName w) :
    ∃ d rest, w.reverse = d :: rest ∧ (d = 'y' ∨ d.isDigit = true) := by
  obtain ⟨ds, rfl, hds⟩ := hw
  rcases List.eq_nil_or_concat ds with rfl | ⟨ds, d, rfl⟩
  · exact ⟨'y', [], rfl, Or.inl rfl⟩
  · exact ⟨d, (('y' :: ds)).reverse, by simp, Or.inr (hds d (by simp))⟩

/-- What is asked of the nearest character before a place, if it does not tell a letter `y` from
    digits. -/
theorem before_named (hw : IsStateName w) (hq : ∀ d : Char, d.isDigit = true → q d = q 'y') :
    (namedBack w bs).head?.elim false q = (plain bs).head?.elim false q := by
  cases bs with
  | nil => rfl
  | cons b bs =>
    cases b with
    | char a =>
      rw [namedBack_char]
      rfl
    | state =>
      obtain ⟨d, rest, hlast, hd⟩ := exists_last hw
      rw [namedBack_state, hlast]
      show q d = q 'y'
      rcases hd with rfl | hd
      · rfl
      · exact hq d hd

end

/-! ## Where the state stands -/

/-- Does a text begin with a word character?  An empty text begins as told. -/
def leads (e : Bool) : List Cell → Bool
  | [] => e
  | c :: _ => c.is isWord

/-- Does a text end with a word character?  An empty text ends as told. -/
def trails (b : Bool) : List Cell → Bool
  | [] => b
  | c :: cs => trails (c.is isWord) cs

/-- The state is a word of its own and no other `y` is, between what is told of the two sides. -/
def Marked : Bool → List Cell → Bool → Prop
  | _, [], _ => True
  | b, c :: cs, e => c.Fits b (leads e cs) ∧ Marked (c.is isWord) cs e

section

variable {b b' e : Bool} {c : Cell} {cs xs ys : List Cell}

theorem leads_append : leads e (xs ++ ys) = leads (leads e ys) xs := by
  cases xs <;> rfl

theorem trails_append : trails b (xs ++ ys) = trails (trails b xs) ys := by
  induction xs generalizing b with
  | nil => rfl
  | cons x xs ih => exact ih

theorem leads_of_ne (h : cs ≠ []) : leads b cs = leads b' cs := by
  cases cs with
  | nil => exact absurd rfl h
  | cons c cs => rfl

theorem trails_of_ne (h : cs ≠ []) : trails b cs = trails b' cs := by
  cases cs with
  | nil => exact absurd rfl h
  | cons c cs => rfl

theorem trails_reverse : trails b cs.reverse = leads b cs := by
  cases cs with
  | nil => rfl
  | cons c cs =>
    rw [List.reverse_cons, trails_append]
    rfl

/-- What stands behind some cells sees how they end. -/
theorem leads_reverse_append (h : xs ≠ []) : leads e (xs.reverse ++ ys) = trails b xs := by
  rw [leads_append, ← trails_reverse, List.reverse_reverse]
  exact trails_of_ne h

theorem marked_append :
    Marked b (xs ++ ys) e ↔ Marked b xs (leads e ys) ∧ Marked (trails b xs) ys e := by
  induction xs generalizing b with
  | nil => exact (and_iff_right trivial).symm
  | cons x xs ih =>
    show x.Fits b (leads e (xs ++ ys)) ∧ Marked (x.is isWord) (xs ++ ys) e ↔
      (x.Fits b (leads (leads e ys) xs) ∧ Marked (x.is isWord) xs (leads e ys)) ∧
        Marked (trails (x.is isWord) xs) ys e
    rw [ih, leads_append, and_assoc]

/-- Only word characters ask for something of their sides. -/
theorem fits_of_not_word (h : c.is isWord = false) : c.Fits b e := by
  cases c with
  | char a =>
    rintro rfl
    exact absurd h (by decide)
  | state => exact absurd h (by decide)

/-- Cells that are neither the state nor a `y`. -/
def Other (c : Cell) : Prop := c ≠ .state ∧ c ≠ .char 'y'

theorem other_of_not_word (h : c.is isWord = false) : Other c := by
  constructor <;>
  · rintro rfl
    exact absurd h (by decide)

theorem marked_of_other (h : ∀ c ∈ cs, Other c) : Marked b cs e := by
  induction cs generalizing b with
  | nil => trivial
  | cons c cs ih =>
    rw [List.forall_mem_cons] at h
    refine ⟨?_, ih h.2⟩
    cases c with
    | char a =>
      rintro rfl
      exact absurd rfl h.1.2
    | state => exact absurd rfl h.1.1

end

/-! ## Passes -/

/-- What a rule finds in a text and what it writes have the same shape: the state and the letter `y`
    stand in what is written as they did, and words neither begin nor end there if they did not
    before. `b` tells of the character in front, and `n` cells are found. -/
structure Neat (b : Bool) (cs : List Cell) (n : Nat) (out : List Cell) : Prop where
  full : out ≠ []
  starts : b = true → leads false out = leads false cs
  ends : leads false (cs.drop n) = true → trails false out = trails false (cs.take n)
  marked : ∀ b' e, (leads false cs = true → b' = b) →
    (trails false (cs.take n) = true → e = leads false (cs.drop n)) → Marked b' out e

/-- A rule that finds nothing at a digit behind a word character, so nothing in the middle of a name
    for the state. -/
def Idle (r : Rule) : Prop :=
  ∀ a before d cs, isWord a = true → d.isDigit = true → r (a :: before) (d :: cs) = none

/-- A rule that finds something at the same places, whatever the state is called. -/
structure Alike (w : List Char) (r : Rule) : Prop where
  idle : Idle r
  same : ∀ bs c cs, Marked false (bs.reverse ++ c :: cs) false →
    (r (namedBack w bs) (named w (c :: cs))).isSome = (r (plain bs) (plain (c :: cs))).isSome

/-- A rule that finds and writes the same cells, whatever the state is called. -/
structure Respects (w : List Char) (r : Rule) : Prop where
  idle : Idle r
  miss : ∀ bs c cs, Marked false (bs.reverse ++ c :: cs) false →
    r (plain bs) (plain (c :: cs)) = none → r (namedBack w bs) (named w (c :: cs)) = none
  hit : ∀ bs c cs h, Marked false (bs.reverse ++ c :: cs) false →
    r (plain bs) (plain (c :: cs)) = some h →
      ∃ out, h.text = plain out ∧ Neat (leads false bs) (c :: cs) (h.extra + 1) out ∧
        r (namedBack w bs) (named w (c :: cs)) =
          some ⟨span w (c :: cs) (h.extra + 1) - 1, named w out⟩

theorem Respects.alike {w : List Char} {r : Rule} (hr : Respects w r) : Alike w r where
  idle := hr.idle
  same bs c cs hmarked := by
    cases h : r (plain bs) (plain (c :: cs)) with
    | none => rw [hr.miss bs c cs hmarked h]
    | some hit =>
      obtain ⟨out, -, -, hnamed⟩ := hr.hit bs c cs hit hmarked h
      rw [hnamed]
      rfl

section

variable {w : List Char} {r : Rule} (hw : IsStateName w)

include hw

/-- A rule that finds nothing at the front of a name for the state finds nothing inside. -/
theorem quiet_of_idle (hr : Idle r) {before rest : List Char} (h : r before (w ++ rest) = none) :
    ∀ pre c post, w = pre ++ c :: post →
      r (pre.reverse ++ before) (c :: (post ++ rest)) = none := by
  obtain ⟨ds, rfl, hds⟩ := hw
  intro pre c post hsplit
  rcases List.eq_nil_or_concat pre with rfl | ⟨front, d, rfl⟩
  · rw [hsplit] at h
    exact h
  · rw [List.concat_eq_append] at hsplit ⊢
    rw [List.reverse_append]
    have hc : c ∈ ds := by
      rcases front with _ | ⟨x, front⟩ <;>
      · obtain ⟨-, hds'⟩ := List.cons.inj hsplit
        rw [hds']
        simp
    have hd : isWord d = true := by
      have hmem : d ∈ 'y' :: ds := by
        rw [hsplit]
        simp
      rcases List.mem_cons.mp hmem with rfl | hmem
      · decide
      · exact isWord_of_isPlainWord (isPlainWord_of_isDigit (hds d hmem))
    exact hr d _ c _ hd (hds c hc)

theorem span_pos (c : Cell) (cs : List Cell) (n : Nat) : 1 ≤ span w (c :: cs) (n + 1) := by
  cases c with
  | char a =>
    rw [span_char]
    exact Nat.le_add_left 1 _
  | state =>
    obtain ⟨ds, rfl, -⟩ := hw
    rw [span_state, List.length_cons]
    omega

theorem named_ne (c : Cell) (cs : List Cell) : named w (c :: cs) ≠ [] := by
  cases c with
  | char a => simp
  | state =>
    obtain ⟨ds, rfl, -⟩ := hw
    simp

end

/-- Behind the cells `bs`, a pass writes the cells `outs` for `cs`, whatever the state is called.
    What is written is marked behind what `b` tells of, and in the middle of a word it leads with
    one as `cs` does. -/
structure Writes (w : List Char) (r : Rule) (b : Bool) (bs cs outs : List Cell) : Prop where
  plain : r.pass 0 (plain bs) (plain cs) = plain outs
  named : r.pass 0 (namedBack w bs) (named w cs) = named w outs
  marked : Marked b outs false
  leads : leads false bs = true → leads false outs = leads false cs

section

variable {w : List Char} {r : Rule} {b : Bool} {bs cs outs : List Cell} {c : Cell}
  (hw : IsStateName w) (hr : Respects w r)
  (hmarked : Marked false (bs.reverse ++ c :: cs) false)
  (hb : leads false (c :: cs) = true → b = leads false bs)

include hw hb

include hr hmarked in
/-- Where the rule finds nothing, the cell is copied. -/
theorem writes_miss (hrule : r (plain bs) (plain (c :: cs)) = none)
    (hrest : Writes w r (c.is isWord) (c :: bs) cs outs) :
    Writes w r b bs (c :: cs) (c :: outs) := by
  have hnamed := hr.miss bs c cs hmarked hrule
  constructor
  case plain => exact (Rule.pass_none hrule).trans (congrArg _ hrest.plain)
  case named =>
    cases c with
    | char a =>
      rw [named_char] at hnamed ⊢
      rw [Rule.pass_none hnamed, ← namedBack_char, hrest.named, named_char]
    | state =>
      rw [named_state] at hnamed ⊢
      rw [Rule.pass_quiet (quiet_of_idle hw hr.idle hnamed), ← namedBack_state, hrest.named,
        named_state]
  case marked =>
    refine ⟨?_, hrest.marked⟩
    cases hword : c.is isWord with
    | false => exact fits_of_not_word hword
    | true =>
      have hwhole := marked_append.mp hmarked
      rw [trails_reverse] at hwhole
      rw [hb hword, hrest.leads hword]
      exact hwhole.2.1
  case leads => exact fun _ => rfl

/-- Where the rule finds something, the cells found are skipped, and what is written stands before
    what the rest writes. -/
theorem writes_hit {h : Hit} {out : List Cell} (htext : h.text = plain out)
    (hrule : r (plain bs) (plain (c :: cs)) = some h)
    (hneat : Neat (leads false bs) (c :: cs) (h.extra + 1) out)
    (hnamed : r (namedBack w bs) (named w (c :: cs)) =
      some ⟨span w (c :: cs) (h.extra + 1) - 1, named w out⟩)
    (hrest : Writes w r (trails false out) (((c :: cs).take (h.extra + 1)).reverse ++ bs)
      ((c :: cs).drop (h.extra + 1)) outs) : Writes w r b bs (c :: cs) (out ++ outs) := by
  have hleads := hrest.leads
  rw [leads_reverse_append (by simp)] at hleads
  constructor
  case plain =>
    rw [Rule.pass_found (Nat.le_add_left 1 h.extra) (by simp) hrule, plain_take, plain_drop, htext,
      plain_append, ← hrest.plain, plain_append, plain_reverse]
  case named =>
    rw [Rule.pass_found (span_pos hw c cs h.extra) (named_ne hw c cs) hnamed, named_take,
      named_drop, named_append, ← hrest.named, namedBack_append, namedBack_reverse]
  case marked =>
    rw [marked_append]
    refine ⟨hneat.marked b _ hb hleads, ?_⟩
    have htrails : trails b out = trails false out := trails_of_ne hneat.full
    rw [htrails]
    exact hrest.marked
  case leads =>
    intro hbefore
    rw [leads_append, leads_of_ne hneat.full]
    exact hneat.starts hbefore

end

section

variable {w : List Char} {r : Rule} (hw : IsStateName w)

include hw

/-- **A pass of a rule that treats all names for the state alike** writes the same cells, whatever
    the state is called. -/
theorem pass_named (hr : Respects w r) (cs bs : List Cell) (b : Bool)
    (hmarked : Marked false (bs.reverse ++ cs) false)
    (hb : leads false cs = true → b = leads false bs) : ∃ outs, Writes w r b bs cs outs := by
  -- on the length of what is left, since a hit takes several cells at once
  induction hn : cs.length using Nat.strongRecOn generalizing cs bs b with
  | ind n ih =>
    cases cs with
    | nil => exact ⟨[], rfl, Rule.pass_nil _ _, trivial, fun _ => rfl⟩
    | cons c cs =>
      have hback : ∀ k, Marked false (((((c :: cs).take k).reverse ++ bs).reverse) ++
          (c :: cs).drop k) false := by
        intro k
        rw [List.reverse_append, List.reverse_reverse, List.append_assoc, List.take_append_drop]
        exact hmarked
      cases hrule : r (plain bs) (plain (c :: cs)) with
      | none =>
        obtain ⟨outs, hrest⟩ := ih cs.length (by rw [← hn, List.length_cons]; omega) cs (c :: bs)
          (c.is isWord) (hback 1) (fun _ => rfl) rfl
        exact ⟨c :: outs, writes_miss hw hr hmarked hb hrule hrest⟩
      | some h =>
        obtain ⟨out, htext, hneat, hnamed⟩ := hr.hit bs c cs h hmarked hrule
        obtain ⟨outs, hrest⟩ := ih ((c :: cs).drop (h.extra + 1)).length
          (by rw [← hn, List.length_drop, List.length_cons]; omega) ((c :: cs).drop (h.extra + 1))
          (((c :: cs).take (h.extra + 1)).reverse ++ bs) (trails false out) (hback _)
          (fun hlead => (hneat.ends hlead).trans (leads_reverse_append (by simp)).symm) rfl
        exact ⟨out ++ outs, writes_hit hw hb htext hrule hneat hnamed hrest⟩

/-- A rule is found in a text or not, whatever the state is called. -/
theorem findFrom?_named (hr : Alike w r) (cs bs : List Cell)
    (hmarked : Marked false (bs.reverse ++ cs) false) :
    (r.findFrom? (namedBack w bs) (named w cs)).isSome =
      (r.findFrom? (plain bs) (plain cs)).isSome := by
  induction cs generalizing bs with
  | nil => rfl
  | cons c cs ih =>
    have hsame := hr.same bs c cs hmarked
    obtain ⟨d, rest, htext⟩ := List.exists_cons_of_ne_nil (named_ne hw c cs)
    cases hrule : r (plain bs) (plain (c :: cs)) with
    | some h =>
      rw [hrule] at hsame
      obtain ⟨h', hnamed⟩ := Option.isSome_iff_exists.mp hsame
      rw [htext] at hnamed ⊢
      rw [plain_cons] at hrule ⊢
      rw [Rule.findFrom?, hnamed, Rule.findFrom?, hrule]
      rfl
    | none =>
      rw [hrule] at hsame
      have hnamed := Option.isSome_eq_false_iff.mp hsame
      rw [Option.isNone_iff_eq_none] at hnamed
      have hplain : r.findFrom? (plain bs) (plain (c :: cs)) =
          r.findFrom? (plain (c :: bs)) (plain cs) := by
        rw [plain_cons] at hrule ⊢
        rw [Rule.findFrom?, hrule]
        rfl
      rw [hplain, ← ih (c :: bs) (by rwa [List.reverse_cons, List.append_assoc])]
      cases c with
      | char a =>
        rw [named_char] at hnamed ⊢
        rw [Rule.findFrom?, hnamed, namedBack_char]
      | state =>
        rw [named_state] at hnamed ⊢
        rw [Rule.findFrom?_append (quiet_of_idle hw hr.idle hnamed), namedBack_state]

/-- A rule is found in a whole text or not. -/
theorem find?_named (hr : Alike w r) {cs : List Cell} (hcs : Marked false cs false) :
    (r.find? (named w cs)).isSome = (r.find? (plain cs)).isSome :=
  findFrom?_named hw hr cs [] hcs

/-- A whole pass. -/
theorem apply_named (hr : Respects w r) {cs : List Cell} (hcs : Marked false cs false) :
    ∃ outs, r.apply (plain cs) = plain outs ∧ r.apply (named w cs) = named w outs ∧
      Marked false outs false := by
  obtain ⟨outs, h⟩ := pass_named hw hr cs [] false hcs (fun _ => rfl)
  exact ⟨outs, h.plain, h.named, h.marked⟩

end

end InitialValue.Formula.StateName
