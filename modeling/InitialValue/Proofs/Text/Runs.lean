/-
  Runs of characters at the front of a text and inside it, and last characters.

  Every pass over a formula takes a run of a class off the front of what is left.  When a text is
  put together from pieces, such a run ends with its piece if the next one starts with something
  else; `takeWhile_append_stop` and `dropWhile_append_stop` say so.

  Inside a text, `IsRun` says what a run is without reading anything.  Two laws tell all of them: a
  text of one class is its own only run (`isRun_whole`), and a character of no run parts a text into
  two with the runs of either (`isRun_parted`).
-/
import Mathlib.Data.List.TakeWhile

namespace InitialValue.Text

variable {β : Type} {p : β → Bool}

/-- What is checked of a list, one item after the other, holds of its items. -/
theorem forall_mem_of_all {P : β → Prop} [DecidablePred P] {cs : List β}
    (h : cs.all (fun c => decide (P c)) = true) : ∀ c ∈ cs, P c := fun c hc =>
  of_decide_eq_true (List.all_eq_true.mp h c hc)

/-- `StopsAt p cs` — the text does not start with something of a class. -/
def StopsAt (p : β → Bool) (cs : List β) : Prop := ∀ c, cs.head? = some c → p c = false

theorem stopsAt_nil : StopsAt p [] := fun _ h => by cases h

theorem stopsAt_cons {c : β} {cs : List β} (h : p c = false) : StopsAt p (c :: cs) := by
  intro x hx
  cases hx
  exact h

theorem StopsAt.imp {q : β → Bool} {cs : List β} (h : StopsAt q cs)
    (hpq : ∀ c, p c = true → q c = true) : StopsAt p cs := by
  intro c hc
  have hq := h c hc
  rw [Bool.eq_false_iff] at hq ⊢
  exact fun hp => hq (hpq c hp)

/-- What stops at a list stops at its front. -/
theorem StopsAt.left {xs ys : List β} (h : StopsAt p (xs ++ ys)) : StopsAt p xs := by
  cases xs with
  | nil => exact stopsAt_nil
  | cons x xs => exact stopsAt_cons (h x rfl)

theorem StopsAt.append {xs : List β} {c : β} (h : StopsAt p xs) (hc : p c = false) (ys : List β) :
    StopsAt p (xs ++ c :: ys) := by
  cases xs with
  | nil => exact stopsAt_cons hc
  | cons x xs => exact stopsAt_cons (h x rfl)

theorem stopsAt_dropWhile (cs : List β) : StopsAt p (cs.dropWhile p) := by
  intro x hx
  have hnot := List.head?_dropWhile_not p cs
  rw [hx] at hnot
  exact hnot

/-- The run of a class at the front of a text is the piece of it that belongs to the class. -/
theorem takeWhile_append_stop {xs rest : List β} (hxs : ∀ x ∈ xs, p x = true)
    (hrest : StopsAt p rest) : (xs ++ rest).takeWhile p = xs := by
  rw [List.takeWhile_append_of_pos hxs]
  cases rest with
  | nil => simp
  | cons c rest => simp [hrest c rfl]

theorem dropWhile_append_stop {xs rest : List β} (hxs : ∀ x ∈ xs, p x = true)
    (hrest : StopsAt p rest) : (xs ++ rest).dropWhile p = rest := by
  rw [List.dropWhile_append_of_pos hxs]
  cases rest with
  | nil => rfl
  | cons c rest => simp [hrest c rfl]

/-- A list does not stop at the class of a run that it begins with. -/
theorem not_stopsAt_run {xs rest : List β} (hne : xs ≠ []) (hxs : ∀ x ∈ xs, p x = true) :
    ¬ StopsAt p (xs ++ rest) := by
  intro hstop
  obtain ⟨x, xs, rfl⟩ := List.exists_cons_of_ne_nil hne
  have hx := hxs x List.mem_cons_self
  rw [hstop x rfl] at hx
  cases hx

theorem drop_length_takeWhile (cs : List β) :
    cs.drop (cs.takeWhile p).length = cs.dropWhile p := by
  induction cs with
  | nil => rfl
  | cons c cs ih => by_cases hc : p c = true <;> simp [hc, ih]

theorem mem_takeWhile {cs : List β} {x : β} (h : x ∈ cs.takeWhile p) : p x = true :=
  List.all_eq_true.mp List.all_takeWhile x h

/-- Behind a run of a class, more of it may come only where the list goes on with the class. -/
theorem takeWhile_append_of_stop (xs : List β) {rest : List β} (hrest : StopsAt p rest) :
    (xs ++ rest).takeWhile p = xs.takeWhile p := by
  induction xs with
  | nil => exact takeWhile_append_stop (by simp) hrest
  | cons x xs ih => by_cases hx : p x = true <;> simp [hx, ih]

theorem dropWhile_append_of_stop (xs : List β) {rest : List β} (hrest : StopsAt p rest) :
    (xs ++ rest).dropWhile p = xs.dropWhile p ++ rest := by
  induction xs with
  | nil => exact dropWhile_append_stop (by simp) hrest
  | cons x xs ih => by_cases hx : p x = true <;> simp [hx, ih]

/-- **Induction along the runs of a class** that a list is made of. -/
@[elab_as_elim]
theorem runs_induction (p : β → Bool) {P : List β → Prop} (cs : List β) (nil : P [])
    (other : ∀ c cs, p c = false → P cs → P (c :: cs))
    (run : ∀ w cs, w ≠ [] → (∀ c ∈ w, p c = true) → StopsAt p cs → P cs → P (w ++ cs)) : P cs := by
  induction hn : cs.length using Nat.strongRecOn generalizing cs with
  | ind n ih =>
    rcases cs with _ | ⟨c, cs⟩
    · exact nil
    rw [List.length_cons] at hn
    by_cases hc : p c = true
    · have hsplit : c :: cs = (c :: cs.takeWhile p) ++ cs.dropWhile p := by
        rw [List.cons_append, List.takeWhile_append_dropWhile]
      have hless : (cs.dropWhile p).length < n := by
        have hle := (List.dropWhile_sublist p (l := cs)).length_le
        omega
      rw [hsplit]
      refine run _ _ (List.cons_ne_nil _ _) (fun x hx => ?_) (stopsAt_dropWhile cs)
        (ih _ hless _ rfl)
      rcases List.mem_cons.mp hx with rfl | hx
      · exact hc
      · exact mem_takeWhile hx
    · exact other c cs (Bool.eq_false_iff.mpr hc) (ih _ (by omega) cs rfl)

/-- Where one item is not of a class and all others are, there is one way to part a list at such an
    item. -/
theorem parted_once {xs ys us vs : List β} {a b : β} (h : xs ++ a :: us = ys ++ b :: vs)
    (hys : ∀ x ∈ ys, p x = true) (hvs : ∀ x ∈ vs, p x = true) (ha : p a = false) :
    xs = ys ∧ a = b ∧ us = vs := by
  have hnot : ∀ zs : List β, (∀ x ∈ zs, p x = true) → a ∉ zs := by
    intro zs hzs hmem
    rw [hzs a hmem] at ha
    cases ha
  rcases List.append_eq_append_iff.mp h with ⟨mid, h1, h2⟩ | ⟨mid, h1, h2⟩
  · rcases mid with _ | ⟨x, mid⟩
    · rw [List.append_nil] at h1
      obtain ⟨hab, hrest⟩ := List.cons.inj h2
      exact ⟨h1.symm, hab, hrest⟩
    · obtain ⟨hax, -⟩ := List.cons.inj h2
      exact absurd (by rw [h1, hax]; simp) (hnot ys hys)
  · rcases mid with _ | ⟨x, mid⟩
    · rw [List.append_nil] at h1
      obtain ⟨hab, hrest⟩ := List.cons.inj h2
      exact ⟨h1, hab.symm, hrest.symm⟩
    · obtain ⟨-, hrest⟩ := List.cons.inj h2
      exact absurd (by rw [hrest]; simp) (hnot vs hvs)

/-- The last of two pieces, or what stood there before. -/
theorem getLast?_append_or (xs ys : List β) (b : Option β) :
    (xs ++ ys).getLast?.or b = ys.getLast?.or (xs.getLast?.or b) := by
  rw [List.getLast?_append, Option.or_assoc]

/-! ## Runs inside a text -/

section

variable {a b w : List β} {c : β}

/-- `IsRun p w cs` — somewhere in a list stands a run of a class that cannot be made longer on either
    side. -/
def IsRun (p : β → Bool) (w cs : List β) : Prop :=
  w ≠ [] ∧ (∀ c ∈ w, p c = true) ∧
    ∃ before after, cs = before ++ (w ++ after) ∧ StopsAt p before.reverse ∧ StopsAt p after

/-- **A text of one class is its own only run.** -/
theorem isRun_whole {cs : List β} (hcs : ∀ x ∈ cs, p x = true) :
    IsRun p w cs ↔ cs ≠ [] ∧ w = cs := by
  constructor
  · rintro ⟨hne, -, before, after, rfl, hbefore, hafter⟩
    have hfront : before = [] := by
      rcases List.eq_nil_or_concat before with rfl | ⟨front, x, rfl⟩
      · rfl
      · have hx : p x = false := hbefore x (by simp)
        rw [hcs x (by simp)] at hx
        cases hx
    have hback : after = [] := by
      rcases after with _ | ⟨x, back⟩
      · rfl
      · have hx : p x = false := hafter x rfl
        rw [hcs x (by simp)] at hx
        cases hx
    rw [hfront, hback, List.append_nil, List.nil_append]
    exact ⟨hne, rfl⟩
  · rintro ⟨hne, rfl⟩
    exact ⟨hne, hcs, [], [], by simp, stopsAt_nil, stopsAt_nil⟩

theorem IsRun.left (h : IsRun p w a) (hc : p c = false) (b : List β) : IsRun p w (a ++ c :: b) := by
  obtain ⟨hne, hw, before, after, rfl, hbefore, hafter⟩ := h
  exact ⟨hne, hw, before, after ++ c :: b, by simp, hbefore, hafter.append hc b⟩

theorem IsRun.right (h : IsRun p w b) (hc : p c = false) (a : List β) : IsRun p w (a ++ c :: b) := by
  obtain ⟨hne, hw, before, after, rfl, hbefore, hafter⟩ := h
  refine ⟨hne, hw, a ++ c :: before, after, by simp, ?_, hafter⟩
  rw [List.reverse_append, List.reverse_cons, List.append_assoc, List.singleton_append]
  exact hbefore.append hc _

/-- **A character of no run parts the runs.** -/
theorem isRun_parted (hc : p c = false) :
    IsRun p w (a ++ c :: b) ↔ IsRun p w a ∨ IsRun p w b := by
  refine ⟨?_, fun h => h.elim (fun h => h.left hc b) fun h => h.right hc a⟩
  rintro ⟨hne, hw, before, after, hsplit, hbefore, hafter⟩
  have hfree : c ∉ w := by
    intro hmem
    rw [hw c hmem] at hc
    cases hc
  rcases List.append_eq_append_iff.mp hsplit with ⟨mid, rfl, hmid⟩ | ⟨mid, rfl, hmid⟩
  · -- the run does not start in front of the first part's end
    rcases mid with _ | ⟨x, mid⟩
    · obtain ⟨x, w, rfl⟩ := List.exists_cons_of_ne_nil hne
      obtain ⟨rfl, -⟩ := List.cons.inj hmid
      exact absurd List.mem_cons_self hfree
    · obtain ⟨rfl, rfl⟩ := List.cons.inj hmid
      rw [List.reverse_append, List.reverse_cons, List.append_assoc] at hbefore
      exact Or.inr ⟨hne, hw, mid, after, rfl, hbefore.left, hafter⟩
  · -- the run starts in the first part, and has to end there
    rcases List.append_eq_append_iff.mp hmid with ⟨back, rfl, rfl⟩ | ⟨back, rfl, hback⟩
    · exact Or.inl ⟨hne, hw, before, back, rfl, hbefore, hafter.left⟩
    · rcases back with _ | ⟨x, back⟩
      · exact Or.inl ⟨hne, hw, before, [], by simp, hbefore, stopsAt_nil⟩
      · obtain ⟨rfl, -⟩ := List.cons.inj hback
        exact absurd (by simp) hfree

/-- **Induction along the characters of no run.** -/
@[elab_as_elim]
theorem parts_induction (p : β → Bool) {P : List β → Prop} (cs : List β)
    (whole : ∀ cs, (∀ c ∈ cs, p c = true) → P cs)
    (parted : ∀ a c b, (∀ c ∈ a, p c = true) → p c = false → P b → P (a ++ c :: b)) : P cs := by
  induction hn : cs.length using Nat.strongRecOn generalizing cs with
  | ind n ih =>
    have hsplit : cs = cs.takeWhile p ++ cs.dropWhile p := List.takeWhile_append_dropWhile.symm
    rcases hdrop : cs.dropWhile p with _ | ⟨c, b⟩
    · exact whole cs (List.dropWhile_eq_nil_iff.mp hdrop)
    · have hc : p c = false := stopsAt_dropWhile cs c (by rw [hdrop]; rfl)
      rw [hdrop] at hsplit
      have hlength := congrArg List.length hsplit
      rw [List.length_append, List.length_cons] at hlength
      rw [hsplit]
      exact parted _ c b (fun x hx => mem_takeWhile hx) hc (ih _ (by omega) b rfl)

end

end InitialValue.Text
