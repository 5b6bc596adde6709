import Blockwright.Emit.Run
/-!
# How an action of a pass ends

`Ends` says of an action started in a pass what holds of its value and of the pass behind it,
and what holds of its failure. `Keeps` is the case of an invariant of passes: an action that
succeeds keeps it and gives back something good.
-/

namespace Blockwright

theorem mem_of_lookup {α β : Type} [BEq α] [LawfulBEq α] {l : List (α × β)} {k : α} {b : β}
    (h : l.lookup k = some b) : (k, b) ∈ l := by
  obtain ⟨before, after, rfl, -⟩ := List.lookup_eq_some_iff.1 h
  simp

theorem Pass.failure?_eq_none {p : Pass} : p.failure? = none ↔ p.failure = none ∧ p.names.failure = none := by
  simp [failure?]

namespace Emit

variable {α β : Type} {settings : PassSettings}

/-! ## Running actions -/

theorem run_bind (x : Emit α) (f : α → Emit β) (p : Pass) : (x >>= f).run settings p =
    match x.run settings p with
    | (.ok a, p') => (f a).run settings p'
    | (.error e, p') => (.error e, p') := by
  simp only [run, bind, ReaderT.bind, ExceptT.bind, ExceptT.run, ExceptT.mk, ExceptT.bindCont, StateT.bind]
  rcases x settings p with ⟨_ | a, p'⟩ <;> rfl

theorem run_tryCatch (x : Emit α) (h : Failure → Emit α) (p : Pass) : (tryCatch x h).run settings p =
    match x.run settings p with
    | (.ok a, p') => (.ok a, p')
    | (.error e, p') => (h e).run settings p' := by
  simp only [run, tryCatch, tryCatchThe, MonadExceptOf.tryCatch, ExceptT.tryCatch, ExceptT.run, ExceptT.mk, bind,
    StateT.bind]
  rcases x settings p with ⟨_ | a, p'⟩ <;> rfl

/-! ## Ends -/

/-- Started in a pass, the action succeeds with a value and a pass that satisfy `Q`, or fails
with a failure that satisfies `E`. -/
def Ends (settings : PassSettings) (p : Pass) (x : Emit α) (Q : α → Pass → Prop) (E : Failure → Prop) : Prop :=
  match x.run settings p with
  | (.ok a, p') => Q a p'
  | (.error f, _) => E f

section
variable {p : Pass} {Q : α → Pass → Prop} {R : β → Pass → Prop} {E : Failure → Prop}

@[simp] theorem ends_pure (a : α) : Ends settings p (pure a) Q E ↔ Q a p := Iff.rfl

@[simp] theorem ends_bind (x : Emit α) (f : α → Emit β) :
    Ends settings p (x >>= f) R E ↔ Ends settings p x (fun a p' => Ends settings p' (f a) R E) E := by
  unfold Ends
  rw [run_bind]
  rcases x.run settings p with ⟨_ | a, p'⟩ <;> rfl

@[simp] theorem ends_fail (cause : Cause) : Ends settings p (fail cause : Emit α) Q E ↔ E { cause } := Iff.rfl

@[simp] theorem ends_failIn (b : BlockName) (cause : Cause) :
    Ends settings p (failIn b cause : Emit α) Q E ↔ E { cause, block := some b } := Iff.rfl

@[simp] theorem ends_read {Q : PassSettings → Pass → Prop} : Ends settings p read Q E ↔ Q settings p := Iff.rfl

@[simp] theorem ends_get {Q : Pass → Pass → Prop} : Ends settings p get Q E ↔ Q p p := Iff.rfl

@[simp] theorem ends_modifyGet (f : Pass → α × Pass) :
    Ends settings p (modifyGet f) Q E ↔ Q (f p).1 (f p).2 := Iff.rfl

@[simp] theorem ends_modify {Q : Unit → Pass → Prop} (f : Pass → Pass) :
    Ends settings p (modify f) Q E ↔ Q () (f p) := Iff.rfl

@[simp] theorem ends_tryCatch (x : Emit α) (h : Failure → Emit α) : Ends settings p (tryCatch x h) Q E ↔
    (match x.run settings p with
      | (.ok a, p') => Q a p'
      | (.error f, p') => Ends settings p' (h f) Q E) := by
  unfold Ends
  rw [run_tryCatch]
  rcases x.run settings p with ⟨_ | a, p'⟩ <;> rfl

@[simp] theorem ends_inBlock (b : BlockName) (x : Emit α) :
    Ends settings p (inBlock b x) Q E ↔ Ends settings p x Q (fun f => E (f.inBlock b)) := by
  rw [inBlock, ends_tryCatch, Ends]
  rcases x.run settings p with ⟨_ | a, p'⟩ <;> rfl

theorem Ends.mono {x : Emit α} {Q' : α → Pass → Prop} {E' : Failure → Prop} (h : Ends settings p x Q E)
    (hQ : ∀ a p', Q a p' → Q' a p') (hE : ∀ f, E f → E' f) : Ends settings p x Q' E' := by
  unfold Ends at h ⊢
  rcases hr : x.run settings p with ⟨f | a, p'⟩
  · rw [hr] at h; exact hE f h
  · rw [hr] at h; exact hQ a p' h

/-- A pass goes on while no failure is on record. -/
theorem ends_check {Q : Unit → Pass → Prop} (h : p.failure? = none → Q () p)
    (hE : ∀ cause, p.failure? = some cause → E { cause }) : Ends settings p check Q E := by
  unfold check
  rw [ends_bind, ends_get]
  cases hf : p.failure? with
  | none => exact h hf
  | some cause => exact hE cause hf

theorem ends_of_forall {x : Emit α} (hQ : ∀ a p', Q a p') (hE : ∀ f, E f) : Ends settings p x Q E := by
  unfold Ends
  rcases x.run settings p with ⟨f | a, p'⟩
  · exact hE f
  · exact hQ a p'

end

/-! ## Invariants -/

/-- Started where `I` holds, an action that succeeds ends where it holds, with a value that
satisfies `Q`. -/
def Keeps (settings : PassSettings) (I : Pass → Prop) (x : Emit α) (Q : α → Prop) : Prop :=
  ∀ p, I p → Ends settings p x (fun a p' => I p' ∧ Q a) (fun _ => True)

namespace Keeps

variable {I : Pass → Prop} {Q : α → Prop} {R : β → Prop}

theorem pure {a : α} (h : Q a) : Keeps settings I (Pure.pure a) Q := fun _ hp => ⟨hp, h⟩

theorem bind {x : Emit α} {f : α → Emit β} (hx : Keeps settings I x Q)
    (hf : ∀ a, Q a → Keeps settings I (f a) R) : Keeps settings I (x >>= f) R := by
  intro p hp
  rw [ends_bind]
  exact (hx p hp).mono (fun a p' h => hf a h.2 p' h.1) (fun _ h => h)

theorem fail {cause : Cause} : Keeps settings I (Emit.fail cause : Emit α) Q := fun _ _ => trivial

theorem failIn {b : BlockName} {cause : Cause} : Keeps settings I (Emit.failIn b cause : Emit α) Q :=
  fun _ _ => trivial

theorem read : Keeps settings I (MonadReader.read : Emit PassSettings) (· = settings) := fun _ hp => ⟨hp, rfl⟩

theorem indent : Keeps settings I Emit.indent (· = settings.indent) := fun _ hp => ⟨hp, rfl⟩

theorem inBlock {b : BlockName} {x : Emit α} (hx : Keeps settings I x Q) : Keeps settings I (Emit.inBlock b x) Q :=
  fun p hp => (ends_inBlock b x).2 ((hx p hp).mono (fun _ _ h => h) (fun _ _ => trivial))

theorem mapM {f : α → Emit β} {l : List α} (h : ∀ a ∈ l, Keeps settings I (f a) R) :
    Keeps settings I (l.mapM f) (fun bs => ∀ b ∈ bs, R b) := by
  induction l with
  | nil =>
    rw [List.mapM_nil]
    exact pure (by simp)
  | cons a l ih =>
    rw [List.mapM_cons]
    refine bind (h a List.mem_cons_self) fun b hb => ?_
    refine bind (ih fun x hx => h x (List.mem_cons_of_mem _ hx)) fun bs hbs => ?_
    exact pure (List.forall_mem_cons.2 ⟨hb, hbs⟩)

end Keeps

-- What an action ends with is known through the lemmas above. Left open, it would be worked out wherever a
-- lemma about an emitter is applied, by running the emitter.
attribute [irreducible] Ends

end Emit
end Blockwright
