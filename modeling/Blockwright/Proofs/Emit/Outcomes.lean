import Blockwright.Emit.Index
import Blockwright.Proofs.Attempts
import Blockwright.Proofs.Emit.Calls
/-!
# What comes of an action

An emitter works at a site: it reads the settings and the pass, demands names, helpers and
definitions, asks for the code of what is plugged in, and fails. `Within` says that an action is
made of such steps and that each of them is covered by a licence. There is no step that finishes
the pass or clears its names. `Outcome` says what an action does to a pass whether it succeeds or fails:
it keeps an invariant, gives back something good, or fails for a known reason. An emitter that keeps to
its licence does so where the code it may ask for does.
-/

/-! ## What an emitter may do -/

namespace Blockwright

/-- What is demanded of a pass: a call, or other names for the variables. -/
inductive Demand where
  | call (c : Call)
  | setVariables (idNames : List (RawText × String))

/-- The action of a demand; it gives back the name that is asked for, if any. -/
def Demand.perform : Demand → Emit String
  | .call c => c.perform
  | .setVariables idNames => do
    modify fun p => { p with names := { p.names with idNames } }
    return ""

/-- What an emitter may demand, what it may fail with, and which sockets it may read for a value
and which for statements. -/
structure Licence where
  demand : Demand → Prop
  fail : Failure → Prop
  value : String → Prop
  statements : String → Prop

/-- The licence for everything. -/
def Licence.full : Licence := ⟨fun _ => True, fun _ => True, fun _ => True, fun _ => True⟩

namespace Emit

/-- At the site `s`, the action is made of steps that the licence covers. -/
inductive Within (s : Site) (l : Licence) : {α : Type} → Emit α → Prop
  | pure {α : Type} (a : α) : Within s l (Pure.pure a)
  | bind {α β : Type} {x : Emit α} {f : α → Emit β} :
    Within s l x → (∀ a, Within s l (f a)) → Within s l (x >>= f)
  | attempt {α : Type} {x : Emit α} {h : Failure → Emit α} :
    Within s l x → (∀ f, Within s l (h f)) → Within s l (tryCatch x h)
  | settings : Within s l (read : Emit PassSettings)
  | pass : Within s l (get : Emit Pass)
  | demand (d : Demand) : l.demand d → Within s l d.perform
  | throw {α : Type} (f : Failure) : l.fail f → Within s l (MonadExcept.throw f : Emit α)
  | value (socket : String) (outer : Order) : l.value socket → Within s l (s.value socket outer)
  | statements (socket : String) : l.statements socket → Within s l (s.statements socket)
  | nextCode : Within s l s.nextCode
  | plugged {socket : String} {plug : Plug} : s.plug? socket = some plug → Within s l plug.emit
  | chained {plug : Plug} : s.next = some plug → Within s l plug.emit

namespace Within

variable {s : Site} {l : Licence} {α β : Type}

theorem fail {cause : Cause} (h : l.fail { cause }) : Within s l (Emit.fail cause : Emit α) := .throw _ h

theorem call (c : Call) (h : l.demand (.call c)) : Within s l c.perform := .demand (.call c) h

theorem name (key : RawText) (category : Category) (h : l.demand (.call (.name key category))) :
    Within s l (Emit.name key category) := .call _ h

theorem distinctVariable (seed : RawText) (h : l.demand (.call (.distinct seed .variable))) :
    Within s l (Emit.distinctVariable seed) := .call (.distinct seed .variable) h

theorem provide (desired : String) (body : List String)
    (h : l.demand (.call (.provide desired (body.map .ofString)))) : Within s l (Emit.provide desired body) := by
  rw [← Call.perform_provide]
  exact .call _ h

theorem define (key : RawText) (code : String) (h : l.demand (.call (.define key code))) :
    Within s l (Emit.define key code) := by
  have hdefine : Emit.define key code = (do let _ ← (Call.define key code).perform; return ()) := rfl
  rw [hdefine]
  exact .bind (.call _ h) fun _ => .pure _

end Within
end Emit
end Blockwright

namespace Blockwright.Emit

variable {α β : Type} {settings : PassSettings} {I : Pass → Prop} {E : Failure → Prop}

/-- From a pass that satisfies `I` the action gets to one that does, and succeeds with a value that
satisfies `Q` or fails with a failure that satisfies `E`. -/
def Outcome (settings : PassSettings) (I : Pass → Prop) (Q : α → Prop) (E : Failure → Prop) (x : Emit α) : Prop :=
  ∀ p, I p → I (x.run settings p).2 ∧ Yields Q E (x.run settings p).1

namespace Outcome

variable {Q : α → Prop} {R : β → Prop} {x : Emit α} {f : α → Emit β}

theorem pure {a : α} (h : Q a) : Outcome settings I Q E (Pure.pure a) := fun _ hp => ⟨hp, h⟩

theorem throw {f : Failure} (h : E f) : Outcome settings I Q E (MonadExcept.throw f) := fun _ hp => ⟨hp, h⟩

theorem fail {cause : Cause} (h : E { cause }) : Outcome settings I Q E (Emit.fail cause) := throw h

theorem failIn {b : BlockName} {cause : Cause} (h : E { cause, block := some b }) :
    Outcome settings I Q E (Emit.failIn b cause) := throw h

theorem bind (hx : Outcome settings I Q E x) (hf : ∀ a, Q a → Outcome settings I R E (f a)) :
    Outcome settings I R E (x >>= f) := by
  intro p hp
  have hrun := hx p hp
  rw [run_bind]
  rcases he : x.run settings p with ⟨e | a, p'⟩
  · rw [he] at hrun
    exact hrun
  · rw [he] at hrun
    exact hf a hrun.2 p' hrun.1

theorem attempt {E' : Failure → Prop} {h : Failure → Emit α} (hx : Outcome settings I Q E' x)
    (hh : ∀ f, E' f → Outcome settings I Q E (h f)) : Outcome settings I Q E (tryCatch x h) := by
  intro p hp
  have hrun := hx p hp
  rw [run_tryCatch]
  rcases he : x.run settings p with ⟨e | a, p'⟩
  · rw [he] at hrun
    exact hh e hrun.2 p' hrun.1
  · rw [he] at hrun
    exact hrun

theorem inBlock {E' : Failure → Prop} {b : BlockName} (hx : Outcome settings I Q E' x)
    (hE : ∀ f, E' f → E (f.inBlock b)) : Outcome settings I Q E (Emit.inBlock b x) :=
  hx.attempt fun f hf => throw (hE f hf)

theorem read : Outcome settings I (fun _ => True) E (MonadReader.read : Emit PassSettings) := fun _ hp => ⟨hp, trivial⟩

theorem get : Outcome settings I I E (MonadState.get : Emit Pass) := fun _ hp => ⟨hp, hp⟩

theorem demand {d : Demand} (h : ∀ p, I p → I (d.perform.run settings p).2) :
    Outcome settings I (fun _ => True) E d.perform := by
  intro p hp
  refine ⟨h p hp, ?_⟩
  cases d with
  | call c => rw [Demand.perform, Pass.run_perform]; trivial
  | setVariables idNames => trivial

theorem check (h : ∀ p, I p → ∀ cause, p.failure? = some cause → E { cause }) :
    Outcome settings I (fun _ => True) E check := by
  refine get.bind fun p hp => ?_
  cases hf : p.failure? with
  | none => exact pure trivial
  | some cause => exact fail (h p hp cause hf)

theorem mono {Q' : α → Prop} {E' : Failure → Prop} (hx : Outcome settings I Q E x) (hQ : ∀ a, Q a → Q' a)
    (hE : ∀ f, E f → E' f) : Outcome settings I Q' E' x := by
  intro p hp
  obtain ⟨hI, hy⟩ := hx p hp
  refine ⟨hI, ?_⟩
  cases hr : (x.run settings p).1 with
  | ok a => rw [hr] at hy; exact hQ a hy
  | error f => rw [hr] at hy; exact hE f hy

/-! ## Reading sockets -/

variable {s : Site}

theorem value {socket : String} {outer : Order}
    (h : ∀ plug, s.plug? socket = some plug → Outcome settings I
      (fun r => ∀ code, r = .statement code → E ⟨.expectedValue, some plug.block.name⟩) E plug.emit) :
    Outcome settings I (fun _ => True) E (s.value socket outer) := by
  unfold Site.value
  cases hp : s.plug? socket with
  | none => exact pure trivial
  | some plug =>
    refine (h plug hp).bind fun r hr => ?_
    cases r with
    | handled => exact pure trivial
    | statement code => exact failIn (hr code rfl)
    | value code order => exact pure trivial

theorem statements {socket : String}
    (h : ∀ plug, s.plug? socket = some plug → Outcome settings I
      (fun r => ∀ code order, r = .value code order → E ⟨.expectedStatement, some plug.block.name⟩) E plug.emit) :
    Outcome settings I (fun _ => True) E (s.statements socket) := by
  unfold Site.statements
  cases hp : s.plug? socket with
  | none => exact pure trivial
  | some plug =>
    refine (h plug hp).bind fun r hr => ?_
    cases r with
    | handled => exact pure trivial
    | statement code =>
      dsimp only
      split
      · exact pure trivial
      · exact read.bind fun _ _ => pure trivial
    | value code order => exact failIn (hr code order rfl)

theorem nextCode (h : ∀ plug, s.next = some plug → Outcome settings I
      (fun r => ∀ code order, r = .value code order → E ⟨.expectedStatement, some plug.block.name⟩) E plug.emit) :
    Outcome settings I (fun _ => True) E s.nextCode := by
  unfold Site.nextCode
  cases hp : s.next with
  | none => exact pure trivial
  | some plug =>
    refine (h plug hp).bind fun r hr => ?_
    cases r with
    | handled => exact pure trivial
    | statement code => exact pure trivial
    | value code order => exact failIn (hr code order rfl)

theorem dress {code : String} {thisOnly : Bool} (h : Outcome settings I (fun _ => True) E s.nextCode) :
    Outcome settings I (fun _ => True) E (s.dress code thisOnly) := by
  unfold Site.dress
  cases thisOnly with
  | true => exact pure trivial
  | false => exact h.bind fun _ _ => pure trivial

end Outcome

/-- Where the steps of a licence lead at a site. -/
structure Bounds (settings : PassSettings) (I : Pass → Prop) (E : Failure → Prop) (s : Site) (l : Licence) : Prop where
  demand : ∀ d, l.demand d → ∀ p, I p → I (d.perform.run settings p).2
  fail : ∀ f, l.fail f → E f
  value : ∀ socket outer, l.value socket → Outcome settings I (fun _ => True) E (s.value socket outer)
  statements : ∀ socket, l.statements socket → Outcome settings I (fun _ => True) E (s.statements socket)
  nextCode : Outcome settings I (fun _ => True) E s.nextCode
  plugged : ∀ socket plug, s.plug? socket = some plug → Outcome settings I (fun _ => True) E plug.emit
  chained : ∀ plug, s.next = some plug → Outcome settings I (fun _ => True) E plug.emit

/-- An action that a licence covers leads nowhere else. -/
theorem Within.outcome {s : Site} {l : Licence} {x : Emit α} (hx : Within s l x) (h : Bounds settings I E s l) :
    Outcome settings I (fun _ => True) E x := by
  induction hx with
  | pure a => exact .pure trivial
  | bind _ _ ihx ihf => exact ihx.bind fun a _ => ihf a
  | attempt _ _ ihx ihh => exact ihx.attempt fun f _ => ihh f
  | settings => exact .read
  | pass => exact Outcome.get.mono (fun _ _ => trivial) fun _ h => h
  | demand d hd => exact .demand (h.demand d hd)
  | throw f hf => exact .throw (h.fail f hf)
  | value socket outer hs => exact h.value socket outer hs
  | statements socket hs => exact h.statements socket hs
  | nextCode => exact h.nextCode
  | plugged hp => exact h.plugged _ _ hp
  | chained hp => exact h.chained _ hp

end Blockwright.Emit
