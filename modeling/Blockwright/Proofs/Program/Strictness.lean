import Blockwright.Proofs.Program.Aborted
import Blockwright.Proofs.Program.Declared
/-!
# Strict passes

A strict pass differs from a lenient one only where a helper comes with a second body. The helpers of
the standard emitters are those of the catalogue, where a name has one body; so a pass of theirs runs
in the same way whether it is strict or not.
-/

namespace Blockwright

open Emit

/-- Every helper that was provided is one of the catalogue. -/
def Pass.Stocked (p : Pass) : Prop :=
  ∀ desired helper, p.helpers.lookup desired = some helper →
    ∃ e ∈ Helpers.catalogue, desired = .ofString e.1 ∧ helper.body = .ofString (Text.joinWith "\n" e.2)

/-- A helper of the catalogue that was provided has its one body. -/
theorem Pass.Stocked.body {p : Pass} (h : p.Stocked) {desired : String} {body : List String}
    (hmem : (desired, body) ∈ Helpers.catalogue) {helper : Helper}
    (hfound : p.helpers.lookup (.ofString desired) = some helper) : helper.body = .ofString (Text.joinWith "\n" body) := by
  obtain ⟨⟨name, body'⟩, hmem', hname, hbody⟩ := h _ helper hfound
  obtain rfl := RawText.ofString_inj.1 hname
  rw [hbody, Helpers.body_unique hmem hmem']

namespace Emit

/-- From a pass with helpers of the catalogue only, the action gets to such a pass and puts no helper on
record, in the same way whether the pass is strict or not. -/
def Indifferent {α : Type} (x : Emit α) : Prop :=
  ∀ settings strict p, p.Stocked → x.run { settings with strict } p = x.run settings p ∧
    (x.run settings p).2.Stocked ∧ (x.run settings p).2.failure = p.failure

namespace Indifferent

variable {α β : Type} {x : Emit α}

theorem pure (a : α) : Indifferent (Pure.pure a) := fun _ _ _ hp => ⟨rfl, hp, rfl⟩

theorem throw (f : Failure) : Indifferent (MonadExcept.throw f : Emit α) := fun _ _ _ hp => ⟨rfl, hp, rfl⟩

theorem get : Indifferent (MonadState.get : Emit Pass) := fun _ _ _ hp => ⟨rfl, hp, rfl⟩

theorem bind {f : α → Emit β} (hx : Indifferent x) (hf : ∀ a, Indifferent (f a)) : Indifferent (x >>= f) := by
  intro settings strict p hp
  obtain ⟨hsame, hstocked, hfailure⟩ := hx settings strict p hp
  rw [run_bind, run_bind, hsame]
  rcases hrun : x.run settings p with ⟨e | a, p'⟩
  · rw [hrun] at hstocked hfailure
    exact ⟨rfl, hstocked, hfailure⟩
  · rw [hrun] at hstocked hfailure
    obtain ⟨hsame', hstocked', hfailure'⟩ := hf a settings strict p' hstocked
    exact ⟨hsame', hstocked', hfailure'.trans hfailure⟩

theorem attempt {h : Failure → Emit α} (hx : Indifferent x) (hh : ∀ f, Indifferent (h f)) :
    Indifferent (tryCatch x h) := by
  intro settings strict p hp
  obtain ⟨hsame, hstocked, hfailure⟩ := hx settings strict p hp
  rw [run_tryCatch, run_tryCatch, hsame]
  rcases hrun : x.run settings p with ⟨e | a, p'⟩
  · rw [hrun] at hstocked hfailure
    obtain ⟨hsame', hstocked', hfailure'⟩ := hh e settings strict p' hstocked
    exact ⟨hsame', hstocked', hfailure'.trans hfailure⟩
  · rw [hrun] at hstocked hfailure
    exact ⟨rfl, hstocked, hfailure⟩

/-- Settings that are read for anything but the strictness. -/
theorem settings {f : PassSettings → Emit α} (hsame : ∀ settings strict, f { settings with strict } = f settings)
    (hf : ∀ settings, Indifferent (f settings)) : Indifferent (read >>= f) := by
  intro settings strict p hp
  have hread : ∀ settings : PassSettings, (read >>= f).run settings p = (f settings).run settings p := fun _ => rfl
  rw [hread, hread, hsame]
  exact hf settings settings strict p hp

/-- A helper of the catalogue. Known by its name, it comes with the body that it has. -/
theorem provide {desired : String} {body : List String} (h : (desired, body) ∈ Helpers.catalogue) :
    Indifferent (Emit.provide desired body) := by
  intro settings strict p hp
  rw [← Call.perform_provide, Pass.run_perform, Pass.run_perform]
  cases hfound : p.helpers.lookup (.ofString desired) with
  | some helper =>
    -- The name has one body, so there is nothing that a strict pass could put on record.
    have hbody : helper.body = .joinLines (body.map .ofString) := by
      rw [RawText.joinLines_ofString, hp.body h hfound]
    have hserve : ∀ settings, p.serve settings (.provide desired (body.map .ofString)) = (helper.name, p) := by
      intro settings
      rw [Pass.serve_known _ hfound, if_neg fun hno => hno.2 hbody, Option.or_none]
    rw [hserve, hserve]
    exact ⟨rfl, hp, rfl⟩
  | none =>
    rw [Pass.serve_provide, Pass.serve_provide, hfound]
    refine ⟨rfl, fun desired' helper hnew => ?_, rfl⟩
    dsimp only at hnew
    rw [List.lookup_append, Option.or_eq_some_iff] at hnew
    rcases hnew with hold | ⟨-, hnew⟩
    · exact hp desired' helper hold
    · obtain ⟨rfl, rfl⟩ := Prod.mk.inj (List.mem_singleton.1 (mem_of_lookup hnew))
      exact ⟨_, h, rfl, RawText.joinLines_ofString body⟩

theorem compositional : Compositional Indifferent where
  pure := pure
  throw := throw
  get := get
  indent := settings (fun _ _ => rfl) fun _ => pure _
  bind := bind
  attempt := attempt

end Indifferent

/-- The steps of a standard emitter do not see whether the pass is strict. -/
theorem Stepwise.indifferent {s : Site} {values sts : List SocketName} {α : Type} {x : Emit α}
    (hx : Stepwise s values sts x) (hplug : ∀ socket plug, s.plug? socket = some plug → Indifferent plug.emit)
    (hnext : ∀ plug, s.next = some plug → Indifferent plug.emit) : Indifferent x := by
  induction hx with
  | pure a => exact .pure a
  | bind _ _ ihx ihf => exact ihx.bind ihf
  | settings hsame _ ih => exact .settings hsame ih
  | anyName key category => exact fun _ _ _ hp => ⟨rfl, hp, rfl⟩
  | temporary seed => exact fun _ _ _ hp => ⟨rfl, hp, rfl⟩
  | helper h => exact .provide h
  | define key code _ => exact fun _ _ _ hp => ⟨rfl, hp, rfl⟩
  | unhandled field => exact .throw _
  | outOfRange literal => exact .throw _
  | value socket outer _ => exact Indifferent.compositional.value outer (hplug socket)
  | statements socket _ => exact Indifferent.compositional.statements (hplug socket)
  | nextCode => exact Indifferent.compositional.nextCode hnext

/-- A tree of blocks is emitted in the same way whether the pass is strict or not. -/
theorem indifferent_block (b : Block) (thisOnly : Bool) : Indifferent (b.emit standard thisOnly) := by
  refine Indifferent.compositional.block (fun kind emitter hfound s hplug hnext => ?_) b thisOnly
  obtain ⟨k, -, -, hreads⟩ := reads_of_lookup hfound
  exact (hreads s).indifferent hplug hnext

end Emit

namespace Generator

/-! ## Programs -/

theorem indifferent_emitTop (top : List Block) : Indifferent (emitTop standard top) :=
  Indifferent.compositional.emitTop (fun b => indifferent_block b false) top

variable {g : Generator} {ws : Workspace} {p : Pass}

theorem helpers_of_start (h : g.start ws = .ok p) : p.helpers = [] := by
  unfold start at h
  dsimp only at h
  split at h
  · cases h
  · cases h
    rfl

theorem stocked_start (h : g.start ws = .ok p) : p.Stocked := by
  intro desired helper hfound
  rw [helpers_of_start h] at hfound
  cases hfound

/-- With the standard emitters, the program of a workspace does not depend on the strictness. -/
theorem generate_strict (hemitters : g.emitters = standard) (strict : Bool) (ws : Workspace) :
    generate { g with strict } ws = g.generate ws := by
  obtain ⟨emitters, reserved, indent, loopTrap, lenient⟩ := g
  obtain rfl : emitters = standard := hemitters
  have hstart : start ⟨standard, reserved, indent, loopTrap, strict⟩ ws =
      start ⟨standard, reserved, indent, loopTrap, lenient⟩ ws := rfl
  unfold generate
  rw [hstart]
  cases hp : start ⟨standard, reserved, indent, loopTrap, lenient⟩ ws with
  | error e => rfl
  | ok p =>
    have hrun : (emitTop standard ws.top).run (settings ⟨standard, reserved, indent, loopTrap, strict⟩ ws) p =
        (emitTop standard ws.top).run (settings ⟨standard, reserved, indent, loopTrap, lenient⟩ ws) p :=
      (indifferent_emitTop ws.top (settings ⟨standard, reserved, indent, loopTrap, lenient⟩ ws) strict p (stocked_start hp)).1
    dsimp only [bind, Except.bind]
    rw [hrun]

/-- A strict generator with the standard emitters gives the program or the failure that the lenient one
gives, for every workspace and whatever else it is set to: in no pass is a helper provided with two
bodies. -/
theorem strict_rejects_nothing (hemitters : g.emitters = standard) (ws : Workspace) :
    generate { g with strict := true } ws = generate { g with strict := false } ws ∧
    ∀ p ds r, g.start ws = .ok p →
      Journal (settings { g with strict := true } ws) (emitTop standard ws.top) p ds r → ¬ Pass.Contradicts ds := by
  refine ⟨?_, fun p ds r hstart hjournal hcontradicts => ?_⟩
  · exact (generate_strict hemitters true ws).trans (generate_strict hemitters false ws).symm
  · -- A second body would be on record at the end of the strict pass, and no helper is.
    have hstocked := stocked_start hstart
    have hfailure := (indifferent_emitTop ws.top (settings { g with strict := true } ws) true p hstocked).2.2
    rw [hjournal.run] at hfailure
    refine hcontradicts.failure_ne_none rfl (hfailure.trans ?_)
    exact (contained_start hstart).2.failure

/-- A workspace of two blocks that ask for one helper. -/
def twoColours : Workspace :=
  { top := [⟨{ kind := "colour_random" }, [], none⟩, ⟨{ kind := "colour_random" }, [], none⟩] }

/-- The helper is not taken for one with two bodies. -/
theorem twoColours_not_rejected : generate { strict := true } twoColours = generate {} twoColours ∧
    ∃ p ds r, start {} twoColours = .ok p ∧
      Journal (settings { strict := true } twoColours) (emitTop standard twoColours.top) p ds r ∧
      ¬ Pass.Contradicts ds := by
  have hstart : start {} twoColours = .ok { names := startNames {} twoColours } := start_of_no_keys rfl
  obtain ⟨ds, r, hjournal, -⟩ := journaled_emitTop licensed_standard twoColours.top { names := startNames {} twoColours }
  have hboth := strict_rejects_nothing (g := {}) rfl twoColours
  exact ⟨hboth.1, _, ds, r, hstart, hjournal, hboth.2 _ _ _ hstart hjournal⟩

end Generator
end Blockwright
