import Blockwright.Proofs.Emit.Steps
import Blockwright.Proofs.Lexical.Operands
import Blockwright.Proofs.Program.Aborted
import Blockwright.Proofs.Program.Declared
/-!
# What actions assure

A registry that has no name left gives an empty one and goes on, and the failure is raised only behind the
emitter that asked. `Assures` therefore speaks of what an action gives if no failure is on record at its end:
none was before then, so every name that was given on the way is a legal one.
-/

namespace Blockwright

open Lexical

variable {settings : PassSettings} {p : Pass}

/-! ## Legal names -/

/-- The names of the registry are legal, and so are those of the helpers unless a failure is on record. -/
structure Pass.Named (p : Pass) : Prop where
  sound : p.names.Sound
  helpers : p.Clean → ∀ entry ∈ p.helpers, Identifier.isLegal entry.2.name = true

/-- The call asks for a name. -/
def Call.asks : Call → Bool
  | .provide .. | .name .. | .distinct .. => true
  | .reserve .. | .define .. => false

namespace Pass

theorem sound_serve (h : p.names.Sound) (c : Call) : (p.serve settings c).2.names.Sound := by
  rcases names_serve settings p c with hn | ⟨r, -, hn⟩
  · rw [hn]
    exact h
  · rw [hn]
    exact h.serve r

/-- The name that a call gives is legal, unless it leaves a failure on record. -/
theorem Named.isLegal_serve (h : p.Named) {c : Call} (hasks : c.asks = true) (hclean : (p.serve settings c).2.Clean) :
    Identifier.isLegal (p.serve settings c).1 = true := by
  have hnames := hclean.names
  cases c with
  | provide desired body =>
    cases hfound : p.helpers.lookup desired with
    | some helper =>
      rw [serve_known body hfound]
      exact h.helpers (clean_of_serve hclean) _ (mem_of_lookup hfound)
    | none =>
      rw [serve_provide, hfound] at hnames ⊢
      exact (Names.answered_distinct p.names desired .procedure).resolve_right fun hspent => hspent.2 hnames
  | name key category => exact (h.sound.answered_get key category).resolve_right fun hspent => hspent.2 hnames
  | distinct seed category =>
    exact (Names.answered_distinct p.names seed category).resolve_right fun hspent => hspent.2 hnames
  | reserve words => cases hasks
  | define key code => cases hasks

/-- Every call keeps names legal. -/
theorem Named.serve (h : p.Named) (c : Call) : (p.serve settings c).2.Named where
  sound := sound_serve h.sound c
  helpers hclean := by
    have hhelpers := h.helpers (clean_of_serve hclean)
    have hlegal : c.asks = true → (p.serve settings c).2.Clean → Identifier.isLegal (p.serve settings c).1 = true :=
      h.isLegal_serve
    cases c with
    | provide desired body =>
      cases hfound : p.helpers.lookup desired with
      | some helper =>
        rw [serve_known body hfound]
        exact hhelpers
      | none =>
        have hanswer := hlegal rfl hclean
        rw [serve_provide, hfound] at hanswer ⊢
        exact List.forall_mem_append.2 ⟨hhelpers, List.forall_mem_singleton.2 hanswer⟩
    | name key category => exact hhelpers
    | distinct seed category => exact hhelpers
    | reserve words => exact hhelpers
    | define key code => exact hhelpers

end Pass

/-- A pass starts with legal names. -/
theorem Generator.named_start {g : Generator} {ws : Workspace} (h : g.start ws = .ok p) : p.Named where
  sound := (contained_start h).1.sound
  helpers _ := by
    unfold start at h
    dsimp only at h
    split at h
    · cases h
    · cases h
      simp

/-! ## What actions assure -/

namespace Emit

variable {α β : Type} {Q : α → Prop} {R : β → Prop}

/-- From this pass the action ends where names are legal. If no failure is on record there, none was in front, and
what the action gives satisfies `Q`. -/
def AssuresAt (settings : PassSettings) (p : Pass) (x : Emit α) (Q : α → Prop) : Prop :=
  (x.run settings p).2.Named ∧
    ((x.run settings p).2.Clean → p.Clean ∧ ∀ a, (x.run settings p).1 = .ok a → Q a)

/-- The action does so from every pass where names are legal. -/
def Assures (settings : PassSettings) (x : Emit α) (Q : α → Prop) : Prop := ∀ p, p.Named → AssuresAt settings p x Q

namespace AssuresAt

/-- What the first step gives is known to be good only when the second one leaves no failure on record. -/
theorem bind {x : Emit α} {f : α → Emit β} (hx : AssuresAt settings p x Q)
    (hf : ∀ a q, x.run settings p = (.ok a, q) → q.Named → AssuresAt settings q (f a) fun b => Q a → R b) :
    AssuresAt settings p (x >>= f) R := by
  obtain ⟨hnamed, hfirst⟩ := hx
  rcases hrun : x.run settings p with ⟨e | a, q⟩
  · rw [hrun] at hnamed hfirst
    rw [AssuresAt, run_bind_of_error hrun]
    refine ⟨hnamed, fun hclean => ⟨(hfirst hclean).1, ?_⟩⟩
    rintro _ ⟨⟩
  · rw [hrun] at hnamed hfirst
    rw [AssuresAt, run_bind_of_ok hrun]
    obtain ⟨hnamed', hsecond⟩ := hf a q hrun hnamed
    refine ⟨hnamed', fun hclean => ?_⟩
    obtain ⟨hclean', hb⟩ := hsecond hclean
    obtain ⟨hclean₀, ha⟩ := hfirst hclean'
    exact ⟨hclean₀, fun b hrun' => hb b hrun' (ha a rfl)⟩

theorem mono {Q' : α → Prop} {x : Emit α} (hx : AssuresAt settings p x Q) (h : ∀ a, Q a → Q' a) : AssuresAt settings p x Q' :=
  hx.imp_right fun hclean h' => (hclean h').imp_right fun ha a hrun => h a (ha a hrun)

theorem and {Q' : α → Prop} {x : Emit α} (hx : AssuresAt settings p x Q) (hx' : AssuresAt settings p x Q') :
    AssuresAt settings p x fun a => Q a ∧ Q' a := by
  refine ⟨hx.1, fun hclean => ?_⟩
  obtain ⟨hclean₀, ha⟩ := hx.2 hclean
  exact ⟨hclean₀, fun a hrun => ⟨ha a hrun, (hx'.2 hclean).2 a hrun⟩⟩

/-- What an action gives, it gives in this run. -/
theorem ran {x : Emit α} (hx : AssuresAt settings p x Q) :
    AssuresAt settings p x fun a => Q a ∧ ∃ q, x.run settings p = (.ok a, q) :=
  hx.imp_right fun hclean h' => (hclean h').imp_right fun ha a hrun => ⟨ha a hrun, (x.run settings p).2, Prod.ext hrun rfl⟩

end AssuresAt

namespace Assures

theorem pure {a : α} (h : Q a) : Assures settings (Pure.pure a) Q := by
  refine fun p hp => ⟨hp, fun hclean => ⟨hclean, ?_⟩⟩
  rintro _ ⟨⟩
  exact h

theorem throw {f : Failure} : Assures settings (MonadExcept.throw f : Emit α) Q := by
  refine fun p hp => ⟨hp, fun hclean => ⟨hclean, ?_⟩⟩
  rintro _ ⟨⟩

theorem bind {x : Emit α} {f : α → Emit β} (hx : Assures settings x Q)
    (hf : ∀ a, Assures settings (f a) fun b => Q a → R b) : Assures settings (x >>= f) R :=
  fun p hp => (hx p hp).bind fun a q _ hq => hf a q hq

theorem mono {Q' : α → Prop} {x : Emit α} (hx : Assures settings x Q) (h : ∀ a, Q a → Q' a) : Assures settings x Q' :=
  fun p hp => (hx p hp).mono h

/-- What an action gives, it gives in some run. -/
theorem ran {x : Emit α} (hx : Assures settings x Q) :
    Assures settings x fun a => Q a ∧ ∃ p q, x.run settings p = (.ok a, q) :=
  fun p hp => (hx p hp).ran.mono fun _ h => h.imp_right fun hrun => ⟨p, hrun⟩

theorem inBlock {x : Emit α} (hx : Assures settings x Q) (b : BlockName) : Assures settings (Emit.inBlock b x) Q := by
  intro p hp
  obtain ⟨hnamed, hvalue⟩ := hx p hp
  rw [Emit.inBlock, AssuresAt, run_tryCatch]
  rcases hrun : x.run settings p with ⟨e | a, p'⟩
  · rw [hrun] at hnamed hvalue
    refine ⟨hnamed, fun hclean => ⟨(hvalue hclean).1, ?_⟩⟩
    rintro _ ⟨⟩
  · rw [hrun] at hnamed hvalue
    exact ⟨hnamed, hvalue⟩

theorem mapM {f : α → Emit β} {l : List α} (h : ∀ a, Assures settings (f a) R) :
    Assures settings (l.mapM f) fun bs => ∀ b ∈ bs, R b := by
  induction l with
  | nil =>
    rw [List.mapM_nil]
    exact pure (by simp)
  | cons a l ih =>
    rw [List.mapM_cons]
    exact (h a).bind fun b => ih.bind fun bs => pure fun hbs hb => List.forall_mem_cons.2 ⟨hb, hbs⟩

theorem read : Assures settings (MonadReader.read : Emit PassSettings) fun _ => True :=
  fun _ hp => ⟨hp, fun hclean => ⟨hclean, fun _ _ => trivial⟩⟩

theorem oneBased (s : Site) : Assures settings s.oneBased fun _ => True := read.bind fun _ => pure fun _ => trivial

/-! ## Names -/

theorem call {c : Call} (hasks : c.asks = true) : Assures settings c.perform IsOperand := by
  intro p hp
  rw [AssuresAt, Pass.run_perform]
  refine ⟨hp.serve c, fun hclean => ⟨Pass.clean_of_serve hclean, ?_⟩⟩
  rintro _ ⟨⟩
  exact isOperand_of_isLegal (hp.isLegal_serve hasks hclean)

theorem name (key : RawText) (category : Category) : Assures settings (Emit.name key category) IsOperand :=
  call (c := .name key category) rfl

theorem variableName (s : Site) (field : String) : Assures settings (s.variableName field) IsOperand := name _ _

theorem provide (desired : String) (body : List String) : Assures settings (Emit.provide desired body) IsOperand := by
  rw [← Call.perform_provide]
  exact call rfl

/-! ## Actions with a journal -/

/-- Whatever an action with modest demands gives, names stay legal and failures on record. -/
theorem of_journaled {x : Emit α} (h : Journaled settings Demand.Modest x) : Assures settings x fun _ => True := by
  intro p hp
  obtain ⟨ds, r, hjournal, hds⟩ := h p
  rw [AssuresAt, hjournal.run]
  have hkeep : ∀ q d, d ∈ ds → q.Named ∧ (q.Clean → p.Clean) →
      (d.perform.run settings q).2.Named ∧ ((d.perform.run settings q).2.Clean → p.Clean) := by
    rintro q d hd ⟨hq, hclean⟩
    obtain ⟨c, rfl, -⟩ := hds d hd
    rw [Demand.perform, Pass.run_perform]
    exact ⟨hq.serve c, fun h' => hclean (Pass.clean_of_serve h')⟩
  obtain ⟨hnamed, hclean⟩ := Pass.behind_keeps hkeep ⟨hp, id⟩
  exact ⟨hnamed, fun h' => ⟨hclean h', fun _ _ => trivial⟩⟩

theorem check : Assures settings Emit.check fun _ => True := of_journaled (Journaled.compositional settings _).check

end Assures
end Emit
end Blockwright
