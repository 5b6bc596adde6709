/-!
# Attempts

An attempt gives a value or is refused for a reason. What one attempt yields is said by a condition
on its value and one on its reason; what two attempts have in common, by a relation between their
values.
-/

namespace Blockwright

variable {ε ε' α β γ δ : Type}

/-! ## One attempt -/

/-- What an attempt gives satisfies `good`, and what it is refused for satisfies `bad`. -/
def Yields (good : α → Prop) (bad : ε → Prop) : Except ε α → Prop
  | .ok a => good a
  | .error e => bad e

namespace Yields

variable {good : α → Prop} {bad : ε → Prop} {x : Except ε α}

theorem pure {a : α} (h : good a) : Yields good bad (Pure.pure a) := h

theorem bind {good' : β → Prop} {f : α → Except ε β} (hx : Yields good bad x)
    (hf : ∀ a, good a → Yields good' bad (f a)) : Yields good' bad (x >>= f) := by
  cases x with
  | ok a => exact hf a hx
  | error e => exact hx

theorem mapError {bad' : ε' → Prop} {f : ε → ε'} (hx : Yields good bad x) (hf : ∀ e, bad e → bad' (f e)) :
    Yields good bad' (x.mapError f) := by
  cases x with
  | ok a => exact hx
  | error e => exact hf e hx

/-- When nothing is asked of the reason, it may be put in other words. -/
theorem reworded (f : ε → ε') (hx : Yields good (fun _ => True) x) : Yields good (fun _ => True) (x.mapError f) :=
  hx.mapError fun _ _ => trivial

/-- Less is asked of the value, and nothing of the reason. -/
theorem weaken {good' : α → Prop} (hx : Yields good bad x) (h : ∀ a, good a → good' a) :
    Yields good' (fun _ => True) x := by
  cases x with
  | ok a => exact h a hx
  | error e => trivial

/-- Nothing is asked of the value or the reason. -/
theorem anyway : Yields (fun _ => True) (fun _ => True) x := by
  cases x <;> trivial

/-- An attempt gives what it gives. -/
theorem itself : Yields (fun a => x = .ok a) (fun _ => True) x := by
  cases x with
  | ok a => exact rfl
  | error e => trivial

theorem map {good' : β → Prop} {f : α → β} (hx : Yields good bad x) (hf : ∀ a, good a → good' (f a)) :
    Yields good' bad (x.map f) := by
  cases x with
  | ok a => exact hf a hx
  | error e => exact hx

/-- What each step of a fold keeps. -/
theorem foldlM {f : α → β → Except ε α} {a : α} (l : List β) (ha : good a)
    (hf : ∀ a b, good a → Yields good bad (f a b)) : Yields good bad (l.foldlM f a) := by
  induction l generalizing a with
  | nil => exact ha
  | cons b l ih =>
    rw [List.foldlM_cons]
    exact (hf a b ha).bind fun a' ha' => ih ha'

theorem ok {a : α} (h : Yields good bad x) (hx : x = .ok a) : good a := by
  subst hx
  exact h

end Yields

/-- Two attempts in a row give what the second gives for what the first gives. -/
theorem bind_eq_ok_iff {x : Except ε α} {f : α → Except ε β} {b : β} : x >>= f = .ok b ↔ ∃ a, x = .ok a ∧ f a = .ok b := by
  cases x with
  | ok a => exact ⟨fun h => ⟨a, rfl, h⟩, by rintro ⟨a', ⟨⟩, h⟩; exact h⟩
  | error e => exact iff_of_false nofun (by rintro ⟨a, ⟨⟩, -⟩)

theorem mapError_eq_ok_iff {x : Except ε α} {f : ε → ε'} {a : α} : x.mapError f = .ok a ↔ x = .ok a := by
  cases x with
  | ok b => exact ⟨fun h => congrArg Except.ok (Except.ok.inj h), fun h => congrArg Except.ok (Except.ok.inj h)⟩
  | error e => exact iff_of_false nofun nofun

/-- Two attempts in a row are refused for a reason of the one or of the other. -/
theorem bind_eq_error_iff {x : Except ε α} {f : α → Except ε β} {e : ε} :
    x >>= f = .error e ↔ x = .error e ∨ ∃ a, x = .ok a ∧ f a = .error e := by
  cases x with
  | ok a => exact ⟨fun h => .inr ⟨a, rfl, h⟩, by rintro (⟨⟨⟩⟩ | ⟨a', ⟨⟩, h⟩); exact h⟩
  | error e' => simp [bind, Except.bind]

theorem mapError_eq_error_iff {x : Except ε α} {f : ε → ε'} {e : ε'} :
    x.mapError f = .error e ↔ ∃ e', x = .error e' ∧ f e' = e := by
  cases x with
  | ok a => exact iff_of_false nofun (by rintro ⟨e', ⟨⟩, -⟩)
  | error e' => exact ⟨fun h => ⟨e', rfl, Except.error.inj h⟩, by rintro ⟨-, ⟨⟩, rfl⟩; rfl⟩

/-- A value needs no other reason. -/
theorem mapError_ok (a : α) (f : ε → ε') : (Except.ok a).mapError f = .ok a := rfl

/-! ## Two attempts -/

/-- Two attempts end alike: both give values, which are related, or both are refused for the same
reason. -/
def Alike (related : α → β → Prop) : Except ε α → Except ε β → Prop
  | .ok a, .ok b => related a b
  | .error e, .error e' => e = e'
  | _, _ => False

namespace Alike

variable {related : α → β → Prop} {x : Except ε α} {y : Except ε β}

theorem pure {a : α} {b : β} (h : related a b) :
    Alike related (Pure.pure a : Except ε α) (Pure.pure b) := h

theorem bind {related' : γ → δ → Prop} {f : α → Except ε γ} {g : β → Except ε δ} (hxy : Alike related x y)
    (hfg : ∀ a b, related a b → Alike related' (f a) (g b)) : Alike related' (x >>= f) (y >>= g) := by
  cases x with
  | ok a =>
    cases y with
    | ok b => exact hfg a b hxy
    | error e' => exact hxy.elim
  | error e =>
    cases y with
    | ok b => exact hxy.elim
    | error e' => exact hxy

theorem mono {related' : α → β → Prop} (hxy : Alike related x y) (h : ∀ a b, related a b → related' a b) :
    Alike related' x y := by
  cases x with
  | ok a =>
    cases y with
    | ok b => exact h a b hxy
    | error e' => exact hxy.elim
  | error e =>
    cases y with
    | ok b => exact hxy.elim
    | error e' => exact hxy

/-- Attempts that give equal values are equal. -/
theorem eq {x y : Except ε α} (hxy : Alike (· = ·) x y) : x = y := by
  cases x with
  | ok a =>
    cases y with
    | ok b => exact congrArg Except.ok hxy
    | error e' => exact hxy.elim
  | error e =>
    cases y with
    | ok b => exact hxy.elim
    | error e' => exact congrArg Except.error hxy

theorem mapError {f : ε → ε'} (hxy : Alike related x y) : Alike related (x.mapError f) (y.mapError f) := by
  cases x with
  | ok a =>
    cases y with
    | ok b => exact hxy
    | error e' => exact hxy.elim
  | error e =>
    cases y with
    | ok b => exact hxy.elim
    | error e' => exact congrArg f hxy

theorem map {related' : γ → δ → Prop} {f : α → γ} {g : β → δ} (hxy : Alike related x y)
    (hfg : ∀ a b, related a b → related' (f a) (g b)) : Alike related' (x.map f) (y.map g) := by
  cases x with
  | ok a =>
    cases y with
    | ok b => exact hfg a b hxy
    | error e' => exact hxy.elim
  | error e =>
    cases y with
    | ok b => exact hxy.elim
    | error e' => exact hxy

theorem map_left {related' : γ → β → Prop} {f : α → γ} (hxy : Alike related x y)
    (hf : ∀ a b, related a b → related' (f a) b) : Alike related' (x.map f) y := by
  have hmapped : Alike related' (x.map f) (y.map id) := hxy.map hf
  rwa [Except.map_id] at hmapped

/-- Two attempts that begin in the same way. -/
theorem after {x : Except ε α} {related' : γ → δ → Prop} {f : α → Except ε γ} {g : α → Except ε δ}
    (hfg : ∀ a, x = .ok a → Alike related' (f a) (g a)) : Alike related' (x >>= f) (x >>= g) := by
  cases x with
  | ok a => exact hfg a rfl
  | error e => rfl

end Alike
end Blockwright
