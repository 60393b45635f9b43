import Mathlib.Data.List.Basic
import Mathlib.Data.List.Forall2

/-!
Results that may be errors, and lists of them.
-/
namespace Sitewright

variable {ε ε' α β : Type}

lemma except_bind_ok {a : Except ε α} {g : α → Except ε β} {y : β} (h : a >>= g = .ok y) :
    ∃ x, a = .ok x ∧ g x = .ok y := by
  cases a with
  | error e => cases h
  | ok x => exact ⟨x, rfl, h⟩

lemma except_bind_eq_error {a : Except ε α} {g : α → Except ε β} {e : ε} :
    a >>= g = .error e ↔ a = .error e ∨ ∃ x, a = .ok x ∧ g x = .error e := by
  cases a with
  | error e' => simp [bind, Except.bind]
  | ok x => simp [bind, Except.bind]

lemma except_map_ok {a : Except ε α} {g : α → β} {y : β} (h : a.map g = .ok y) :
    ∃ x, a = .ok x ∧ g x = y := by
  cases a with
  | error e => cases h
  | ok x => exact ⟨x, rfl, Except.ok.inj h⟩

lemma except_map_eq_error {a : Except ε α} {g : α → β} {e : ε} : a.map g = .error e ↔ a = .error e := by
  cases a <;> simp [Except.map]

lemma except_mapError_ok {a : Except ε α} {f : ε → ε'} {x : α} (h : a.mapError f = .ok x) :
    a = .ok x := by
  cases a with
  | error e => cases h
  | ok y => exact congrArg Except.ok (Except.ok.inj h)

/-- A map over a list that succeeds, step by step. -/
lemma mapM_ok_iff {f : α → Except ε β} {xs : List α} {ys : List β} :
    xs.mapM f = .ok ys ↔ List.Forall₂ (fun x y => f x = .ok y) xs ys := by
  induction xs generalizing ys with
  | nil => cases ys <;> simp [pure, Except.pure]
  | cons x xs ih =>
    rw [List.mapM_cons]
    cases hx : f x with
    | error e => cases ys <;> simp [bind, Except.bind, hx]
    | ok y =>
      cases hxs : xs.mapM f with
      | error e => cases ys <;> simp [bind, Except.bind, ← ih, hxs, hx]
      | ok zs => cases ys <;> simp [bind, Except.bind, pure, Except.pure, ← ih, hxs, hx]

/-- A map over a list that succeeds has its results from items of the list. -/
lemma exists_of_mem_mapM {f : α → Except ε β} {xs : List α} {ys : List β} (h : xs.mapM f = .ok ys)
    {y : β} (hy : y ∈ ys) : ∃ x ∈ xs, f x = .ok y := by
  have hsteps := mapM_ok_iff.mp h
  clear h
  induction hsteps with
  | nil => cases hy
  | @cons x y' xs ys hx _ ih =>
    rcases List.mem_cons.mp hy with rfl | hy
    · exact ⟨x, List.mem_cons_self, hx⟩
    · obtain ⟨x', hx', hf⟩ := ih hy
      exact ⟨x', List.mem_cons_of_mem x hx', hf⟩

/-- A map over a list whose every step succeeds. -/
lemma mapM_eq_ok {f : α → Except ε β} {g : α → β} {xs : List α}
    (h : ∀ x ∈ xs, f x = .ok (g x)) : xs.mapM f = .ok (xs.map g) := by
  induction xs with
  | nil => rfl
  | cons x xs ih =>
    rw [List.mapM_cons, h x List.mem_cons_self, ih fun y hy => h y (List.mem_cons_of_mem _ hy)]
    rfl

/-- A map over a list whose steps fail in one way fails if one of them does. -/
lemma mapM_eq_error {f : α → Except ε β} {e₀ : ε} (h : ∀ x e, f x = .error e → e = e₀) {xs : List α}
    {e : ε} : xs.mapM f = .error e ↔ e = e₀ ∧ ∃ x ∈ xs, f x = .error e₀ := by
  induction xs with
  | nil => simp [pure, Except.pure]
  | cons x xs ih =>
    rw [List.mapM_cons, except_bind_eq_error]
    cases hx : f x with
    | error e' =>
      obtain rfl := h x e' hx
      simp [hx, eq_comm]
    | ok y => simp [except_bind_eq_error, ih, hx, pure, Except.pure]

/-- Checking a list fails at the first item that does not pass. -/
lemma forM_eq_error {f : α → Except ε Unit} {xs : List α} {e : ε} : xs.forM f = .error e ↔
    ∃ before x after, xs = before ++ x :: after ∧ (∀ y ∈ before, f y = .ok ()) ∧ f x = .error e := by
  induction xs with
  | nil => simp [pure, Except.pure]
  | cons x xs ih =>
    rw [List.forM_eq_forM, List.forM_cons, ← List.forM_eq_forM, except_bind_eq_error, ih]
    constructor
    · rintro (hx | ⟨⟨⟩, hx, before, y, after, rfl, hbefore, hy⟩)
      · exact ⟨[], x, xs, rfl, by simp, hx⟩
      · exact ⟨x :: before, y, after, rfl, List.forall_mem_cons.mpr ⟨hx, hbefore⟩, hy⟩
    · rintro ⟨_ | ⟨z, before⟩, y, after, hxs, hbefore, hy⟩
      · obtain ⟨rfl, rfl⟩ := List.cons.inj hxs
        exact .inl hy
      · obtain ⟨rfl, rfl⟩ := List.cons.inj hxs
        obtain ⟨hx, hbefore⟩ := List.forall_mem_cons.mp hbefore
        exact .inr ⟨(), hx, before, y, after, rfl, hbefore, hy⟩

lemma forM_eq_ok {f : α → Except ε Unit} {xs : List α} {u : Unit} :
    xs.forM f = .ok u ↔ ∀ x ∈ xs, f x = .ok () := by
  induction xs with
  | nil => simp [pure, Except.pure]
  | cons x xs ih =>
    rw [List.forM_eq_forM, List.forM_cons, ← List.forM_eq_forM, List.forall_mem_cons, ← ih]
    cases f x <;> simp [bind, Except.bind]

/-- What is left of a step followed by others once all results are forgotten. -/
lemma except_bind_forget {a : Except ε α} {g : α → Except ε β} {c u : Except ε Unit}
    (ha : a.map (fun _ => ()) = c) (hg : ∀ x, (g x).map (fun _ => ()) = u) :
    (a >>= g).map (fun _ => ()) = c >>= fun _ => u := by
  subst ha
  cases a with
  | error e => rfl
  | ok x => exact hg x

end Sitewright
