import Blockwright.Emit.Procedures
import Blockwright.Proofs.Emit.Ends
import Blockwright.Proofs.Names.Slots
import Blockwright.Proofs.Text.Annotated
/-!
# Two runs side by side

Two passes over workspaces that differ in little are run in step. The first run may write lines that
the second does not, and the ids of the variables may differ between them. All else is the same: the
names that are given, the values of blocks, the helpers, and what goes wrong.
-/

namespace Blockwright

open Text

/-- What two runs share and what sets them apart. -/
structure Pairing where
  settings : PassSettings
  /-- The lines that only the first run writes. -/
  remark : List Char → Prop
  /-- The names of the variables by id in the first run. -/
  first : List (RawText × String)
  /-- The names of the variables by id in the second run. -/
  second : List (RawText × String)

namespace Pairing

/-- Both runs find the same name under the two keys, or both take the same text for it. -/
def SameKey (π : Pairing) (key key' : RawText) : Prop :=
  ((π.first.lookup key).map .ofString).getD key = ((π.second.lookup key').map .ofString).getD key'

/-- No line is written by one run only. -/
def Exact (π : Pairing) : Prop := ∀ l, ¬ π.remark l

/-- The settings leave remarks on lines of their own. -/
structure Fit (π : Pairing) : Prop where
  indent : ∀ l, π.remark l → π.remark (π.settings.indent.toList ++ l) ∧ '\n' ∉ π.settings.indent.toList
  loopTrap : π.settings.loopTrap = "" ∨ endsLine π.settings.loopTrap = true

end Pairing

/-- The same thing went wrong, in a block of the same kind. -/
def Failure.Alike (f g : Failure) : Prop := f.cause = g.cause ∧ f.block.map (·.kind) = g.block.map (·.kind)

/-- Failures stay alike when they are tied to blocks of one kind. -/
theorem Failure.Alike.inBlock {f g : Failure} (h : f.Alike g) {b b' : BlockName} (hkind : b'.kind = b.kind) :
    (f.inBlock b).Alike (g.inBlock b') := by
  obtain ⟨cause, block⟩ := f
  obtain ⟨cause', block'⟩ := g
  obtain ⟨hcause, hblock⟩ := h
  refine ⟨hcause, ?_⟩
  cases block <;> cases block'
  · exact congrArg some hkind.symm
  · cases hblock
  · cases hblock
  · exact hblock

/-! ## Names -/

namespace Names

theorem free?_congr (n n' : Names) (hused : n'.used = n.used) (hreserved : n'.reserved = n.reserved) (base : String) :
    n'.free? base = n.free? base := by
  have htaken : n'.taken = n.taken := by
    funext name
    rw [taken, taken, isReserved, isReserved, hused, hreserved]
  rw [free?_eq, free?_eq, htaken]

/-- Fresh names do not depend on the variables' names. -/
theorem distinct_setVariables (n : Names) (ids : List (RawText × String)) (seed : RawText) (category : Category) :
    ({ n with idNames := ids } : Names).distinct seed category =
      ((n.distinct seed category).1, { (n.distinct seed category).2 with idNames := ids }) := by
  have hfree : ({ n with idNames := ids } : Names).free? (Identifier.ofText seed) = n.free? (Identifier.ofText seed) :=
    free?_congr n { n with idNames := ids } rfl rfl _
  unfold distinct distinctFrom
  simp only [hfree]
  generalize n.free? (Identifier.ofText seed) = free
  cases free <;> rfl

/-- The name of a key depends on the variables' names by what the key stands for only. -/
theorem get_setVariables {n : Names} {ids : List (RawText × String)} {key key' : RawText} {category : Category}
    (hkey : ({ n with idNames := ids } : Names).resolve key' category = n.resolve key category) :
    ({ n with idNames := ids } : Names).get key' category =
      ((n.get key category).1, { (n.get key category).2 with idNames := ids }) := by
  unfold get
  dsimp only
  rw [hkey, distinct_setVariables]
  cases n.known[slot (n.resolve key category) category]? with
  | some name => rfl
  | none =>
    dsimp only
    split_ifs <;> rfl

theorem unbroken_of_isLegal {name : String} (h : Identifier.isLegal name = true) : Unbroken name := fun hfeed =>
  absurd (Identifier.isWordChar_of_mem h '\n' hfeed) (by decide)

theorem Answered.unbroken {answer : String × Names} (h : Answered answer) : Unbroken answer.1 := by
  rcases h with h | ⟨h, -⟩
  · exact unbroken_of_isLegal h
  · rw [h]; simp [Unbroken]

end Names

/-! ## Passes -/

/-- Two passes in step. -/
structure Pass.Twin (π : Pairing) (p q : Pass) : Prop where
  names : q.names = { p.names with idNames := π.second }
  first : p.names.idNames = π.first
  sound : p.names.Sound
  helpers : q.helpers = p.helpers
  named : ∀ entry ∈ p.helpers, Unbroken entry.2.name
  failure : q.failure = p.failure
  definitions : List.Forall₂ (fun d e => e.1 = d.1 ∧ Annotated π.remark d.2.toList e.2.toList)
    p.definitions q.definitions

namespace Pass.Twin

variable {π : Pairing} {p q : Pass}

theorem failure?_eq (h : Twin π p q) : q.failure? = p.failure? := by
  rw [failure?, failure?, h.failure, h.names]

/-- Later registries of the two passes. -/
theorem withNames (h : Twin π p q) {names : Names} (hfirst : names.idNames = π.first) (hsound : names.Sound) :
    Twin π { p with names } { q with names := { names with idNames := π.second } } where
  names := rfl
  first := hfirst
  sound := hsound
  helpers := h.helpers
  named := h.named
  failure := h.failure
  definitions := h.definitions

theorem setDefinition {ds es : List (RawText × String)}
    (h : List.Forall₂ (fun d e => e.1 = d.1 ∧ Annotated π.remark d.2.toList e.2.toList) ds es) (key : RawText)
    {code code' : String} (hcode : Annotated π.remark code.toList code'.toList) :
    List.Forall₂ (fun d e => e.1 = d.1 ∧ Annotated π.remark d.2.toList e.2.toList)
      (Pass.setDefinition ds key code) (Pass.setDefinition es key code') := by
  have hany : es.any (·.1 = key) = ds.any (·.1 = key) := by
    induction h with
    | nil => rfl
    | cons hde _ ih => rw [List.any_cons, List.any_cons, ih, hde.1]
  unfold Pass.setDefinition
  rw [hany]
  split
  · rw [List.forall₂_map_left_iff, List.forall₂_map_right_iff]
    refine h.imp fun d e hde => ?_
    rw [hde.1]
    split
    · exact ⟨rfl, hcode⟩
    · exact hde
  · exact List.rel_append h (.cons ⟨rfl, hcode⟩ .nil)

end Pass.Twin

/-! ## Actions -/

namespace Emit

/-- Two runs that both succeed, with related values and passes in step, or in which the same goes
wrong. -/
def EndAlike (π : Pairing) {α β : Type} (R : α → β → Prop) : Except Failure α × Pass → Except Failure β × Pass → Prop
  | (.ok a, p), (.ok b, q) => Pass.Twin π p q ∧ R a b
  | (.error f, _), (.error g, _) => f.Alike g
  | _, _ => False

/-- Started in passes in step, both actions end alike. -/
def Paired (π : Pairing) {α β : Type} (R : α → β → Prop) (x : Emit α) (y : Emit β) : Prop :=
  ∀ p q, Pass.Twin π p q → EndAlike π R (x.run π.settings p) (y.run π.settings q)

/-- Both actions give the same value, which is good. -/
abbrev Agree (π : Pairing) {α : Type} (good : α → Prop) (x y : Emit α) : Prop :=
  Paired π (fun a b => a = b ∧ good a) x y

section
variable {π : Pairing} {α α' β β' : Type} {R : α → β → Prop} {S : α' → β' → Prop}

theorem endAlike_ok {a : α} {b : β} {p q : Pass} :
    EndAlike π R (.ok a, p) (.ok b, q) ↔ Pass.Twin π p q ∧ R a b := Iff.rfl

theorem endAlike_error {f g : Failure} {p q : Pass} : EndAlike π R (.error f, p) (.error g, q) ↔ f.Alike g := Iff.rfl

namespace Paired

theorem pure {a : α} {b : β} (h : R a b) : Paired π R (Pure.pure a) (Pure.pure b) := fun _ _ hpq => ⟨hpq, h⟩

theorem bind {x : Emit α} {y : Emit β} {f : α → Emit α'} {g : β → Emit β'} (hxy : Paired π R x y)
    (hfg : ∀ a b, R a b → Paired π S (f a) (g b)) : Paired π S (x >>= f) (y >>= g) := by
  intro p q hpq
  have hrun := hxy p q hpq
  rw [run_bind, run_bind]
  generalize x.run π.settings p = rx, y.run π.settings q = ry at hrun ⊢
  obtain ⟨e | a, p'⟩ := rx <;> obtain ⟨e' | b, q'⟩ := ry
  · exact hrun
  · exact hrun.elim
  · exact hrun.elim
  · exact hfg a b hrun.2 p' q' hrun.1

/-- A value of the first action is one that the action can give. -/
theorem given {x : Emit α} {y : Emit β} (h : Paired π R x y) :
    Paired π (fun a b => R a b ∧ ∃ p p', x.run π.settings p = (.ok a, p')) x y := by
  intro p q hpq
  have hrun := h p q hpq
  generalize hx : x.run π.settings p = rx, y.run π.settings q = ry at hrun ⊢
  obtain ⟨e | a, p'⟩ := rx <;> obtain ⟨e' | b, q'⟩ := ry
  · exact hrun
  · exact hrun
  · exact hrun
  · exact ⟨hrun.1, hrun.2, p, p', hx⟩

theorem mono {R' : α → β → Prop} {x : Emit α} {y : Emit β} (h : Paired π R x y) (hR : ∀ a b, R a b → R' a b) :
    Paired π R' x y := by
  intro p q hpq
  have hrun := h p q hpq
  generalize x.run π.settings p = rx, y.run π.settings q = ry at hrun ⊢
  obtain ⟨e | a, p'⟩ := rx <;> obtain ⟨e' | b, q'⟩ := ry
  · exact hrun
  · exact hrun
  · exact hrun
  · exact ⟨hrun.1, hR a b hrun.2⟩

theorem fail (cause : Cause) : Paired π R (Emit.fail cause) (Emit.fail cause) := fun _ _ _ => ⟨rfl, rfl⟩

theorem failIn {b b' : BlockName} (h : b'.kind = b.kind) (cause : Cause) :
    Paired π R (Emit.failIn b cause) (Emit.failIn b' cause) := fun _ _ _ => ⟨rfl, congrArg some h.symm⟩

theorem inBlock {b b' : BlockName} (h : b'.kind = b.kind) {x : Emit α} {y : Emit β} (hxy : Paired π R x y) :
    Paired π R (Emit.inBlock b x) (Emit.inBlock b' y) := by
  intro p q hpq
  have hrun := hxy p q hpq
  unfold Emit.inBlock
  rw [run_tryCatch, run_tryCatch]
  generalize x.run π.settings p = rx, y.run π.settings q = ry at hrun ⊢
  obtain ⟨e | a, p'⟩ := rx <;> obtain ⟨e' | c, q'⟩ := ry
  · exact hrun.inBlock h
  · exact hrun
  · exact hrun
  · exact hrun

theorem mapM {γ δ : Type} {T : γ → δ → Prop} {f : γ → Emit α} {g : δ → Emit β} {cs : List γ} {ds : List δ}
    (hcs : List.Forall₂ T cs ds) (h : ∀ c d, T c d → Paired π R (f c) (g d)) :
    Paired π (fun as bs => List.Forall₂ R as bs ∧ as.length = cs.length) (cs.mapM f) (ds.mapM g) := by
  induction hcs with
  | nil =>
    rw [List.mapM_nil, List.mapM_nil]
    exact pure ⟨.nil, rfl⟩
  | cons hcd _ ih =>
    rw [List.mapM_cons, List.mapM_cons]
    refine bind (h _ _ hcd) fun a b hab => ?_
    refine bind ih fun as bs habs => ?_
    exact pure ⟨.cons hab habs.1, congrArg (· + 1) habs.2⟩

end Paired

namespace Agree

variable {good : α → Prop}

theorem pure {a : α} (h : good a) : Agree π good (Pure.pure a) (Pure.pure a) := Paired.pure ⟨rfl, h⟩

theorem bind {x y : Emit α} {f : α → Emit α'} {g : α → Emit β'} (hxy : Agree π good x y)
    (hfg : ∀ a, good a → Paired π S (f a) (g a)) : Paired π S (x >>= f) (y >>= g) := by
  refine Paired.bind hxy fun a b hab => ?_
  obtain ⟨rfl, ha⟩ := hab
  exact hfg a ha

theorem mapM {γ δ : Type} {T : γ → δ → Prop} {f : γ → Emit α} {g : δ → Emit α} {cs : List γ} {ds : List δ}
    (hcs : List.Forall₂ T cs ds) (h : ∀ c d, T c d → Agree π good (f c) (g d)) :
    Agree π (fun _ => True) (cs.mapM f) (ds.mapM g) := by
  refine (Paired.mapM hcs h).mono fun as bs habs => ⟨?_, trivial⟩
  exact List.forall₂_eq_eq_eq ▸ habs.1.imp fun _ _ hab => hab.1

theorem read : Agree π (· = π.settings) (MonadReader.read : Emit PassSettings) MonadReader.read :=
  fun _ _ hpq => ⟨hpq, rfl, rfl⟩

theorem indent : Agree π (· = π.settings.indent) Emit.indent Emit.indent := fun _ _ hpq => ⟨hpq, rfl, rfl⟩

end Agree

/-! ## What changes a pass -/

theorem endAlike_modifyGet (f : Pass → α × Pass) (g : Pass → β × Pass) {p q : Pass} :
    EndAlike π R ((modifyGet f : Emit α).run π.settings p) ((modifyGet g : Emit β).run π.settings q) ↔
      Pass.Twin π (f p).2 (g q).2 ∧ R (f p).1 (g q).1 := Iff.rfl

theorem agree_get {key key' : RawText} {category : Category}
    (hkey : ∀ n : Names, n.idNames = π.first →
      ({ n with idNames := π.second } : Names).resolve key' category = n.resolve key category) :
    Agree π Unbroken (name key category) (name key' category) := by
  intro p q hpq
  have hsecond : q.names.get key' category
      = ((p.names.get key category).1, { (p.names.get key category).2 with idNames := π.second }) := by
    rw [hpq.names]
    exact Names.get_setVariables (hkey p.names hpq.first)
  have hfirst : (p.names.get key category).2.idNames = π.first :=
    (Names.idNames_serve p.names (r := .get key category) rfl).trans hpq.first
  refine (endAlike_modifyGet _ _).2 ?_
  dsimp only
  rw [hsecond]
  exact ⟨hpq.withNames hfirst (hpq.sound.serve (.get key category)), rfl,
    (hpq.sound.answered_get key category).unbroken⟩

theorem agree_variable {key key' : RawText} (h : π.SameKey key key') :
    Agree π Unbroken (name key .variable) (name key' .variable) := by
  refine agree_get fun n hn => ?_
  rw [Names.resolve, Names.resolve, if_pos rfl, if_pos rfl, hn]
  exact h.symm

theorem agree_procedureName (key : RawText) : Agree π Unbroken (procedureName key) (procedureName key) :=
  agree_get fun _ _ => rfl

theorem agree_distinctVariable (seed : RawText) :
    Agree π Unbroken (distinctVariable seed) (distinctVariable seed) := by
  intro p q hpq
  have hsecond := Names.distinct_setVariables p.names π.second seed .variable
  rw [← hpq.names] at hsecond
  have hfirst : (p.names.distinct seed .variable).2.idNames = π.first :=
    (Names.idNames_serve p.names (r := .distinct seed .variable) rfl).trans hpq.first
  refine (endAlike_modifyGet _ _).2 ?_
  dsimp only
  rw [hsecond]
  exact ⟨hpq.withNames hfirst (hpq.sound.serve (.distinct seed .variable)), rfl,
    (Names.answered_distinct p.names seed .variable).unbroken⟩

theorem paired_define (key : RawText) {code code' : String} (h : Annotated π.remark code.toList code'.toList) :
    Paired π (fun _ _ => True) (define key code) (define key code') := fun _ _ hpq =>
  ⟨{ hpq with definitions := Pass.Twin.setDefinition hpq.definitions key h }, trivial⟩

theorem agree_provideText (desired body : RawText) :
    Agree π Unbroken (provideText desired body) (provideText desired body) := by
  unfold provideText
  refine Agree.bind .read fun settings hs => ?_
  intro p q hpq
  have hlookup : q.helpers.lookup desired = p.helpers.lookup desired := by rw [hpq.helpers]
  have hsecond := Names.distinct_setVariables p.names π.second desired .procedure
  rw [← hpq.names] at hsecond
  have hfirst : (p.names.distinct desired .procedure).2.idNames = π.first :=
    (Names.idNames_serve p.names (r := .distinct desired .procedure) rfl).trans hpq.first
  have hunbroken : Unbroken (p.names.distinct desired .procedure).1 :=
    (Names.answered_distinct p.names desired .procedure).unbroken
  refine (endAlike_modifyGet _ _).2 ?_
  rw [hlookup]
  cases hfound : p.helpers.lookup desired with
  | some helper =>
    have hname : Unbroken helper.name := hpq.named _ (mem_of_lookup hfound)
    dsimp only
    split
    · exact ⟨{ hpq with failure := by rw [hpq.failure] }, rfl, hname⟩
    · exact ⟨hpq, rfl, hname⟩
  | none =>
    have hnames := hpq.withNames hfirst (hpq.sound.serve (.distinct desired .procedure))
    dsimp only
    rw [hsecond]
    refine ⟨{ hnames with helpers := by rw [hpq.helpers], named := ?_, definitions := ?_ }, rfl, hunbroken⟩
    · intro entry he
      rcases List.mem_append.1 he with he | he
      · exact hpq.named entry he
      · rw [List.mem_singleton.1 he]; exact hunbroken
    · exact Pass.Twin.setDefinition hpq.definitions desired (.same _)

theorem agree_provide (desired : String) (body : List String) :
    Agree π Unbroken (provide desired body) (provide desired body) := agree_provideText _ _

theorem run_check (settings : PassSettings) (p : Pass) : check.run settings p =
    match p.failure? with
    | none => (.ok (), p)
    | some cause => (.error { cause }, p) := by
  have hpass : (get : Emit Pass).run settings p = (.ok p, p) := rfl
  rw [check, run_bind, hpass]
  dsimp only
  cases p.failure? <;> rfl

/-- A failure on record stops both runs. -/
theorem paired_check : Paired π (fun _ _ => True) check check := by
  intro p q hpq
  rw [run_check, run_check, hpq.failure?_eq]
  cases p.failure? with
  | none => exact ⟨hpq, trivial⟩
  | some cause => exact ⟨rfl, rfl⟩

end

-- Emitters are compared through the lemmas above alone, without running them.
attribute [irreducible] EndAlike

end Emit
end Blockwright
