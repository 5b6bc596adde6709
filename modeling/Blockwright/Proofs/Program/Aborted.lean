import Blockwright.Proofs.Names.Unreserved
import Blockwright.Proofs.Program.Start
/-!
# A failure on record aborts the pass

A request for a name that finds none left gives back the empty text, and a helper that is provided
with another body gives back its name; either leaves a failure on record. No demand takes a failure
off the record, and a pass that succeeds ends with none, so no program comes of such a pass.
-/

namespace Blockwright

namespace Names

/-- Every name that can be made from a text is taken. -/
def Spent (n : Names) (seed : RawText) : Prop := ∀ name ∈ candidates (Identifier.ofText seed), n.taken name = true

/-- A key has no name yet, and none is left for it. -/
def KeySpent (n : Names) (key : RawText) (category : Category) : Prop :=
  n.known[slot (n.resolve key category) category]? = none ∧ n.Spent (n.resolve key category)

variable {n : Names} {seed key : RawText} {category : Category}

theorem Spent.free? (h : n.Spent seed) : n.free? (Identifier.ofText seed) = none := by
  rw [free?_eq, List.find?_eq_none]
  intro name hname
  simp [h name hname]

theorem Spent.failure_distinct (h : n.Spent seed) : (n.distinct seed category).2.failure ≠ none := by
  rcases distinct_cases n seed category with ⟨name, hf, -⟩ | ⟨-, hd⟩
  · rw [h.free?] at hf
    cases hf
  · rw [hd]
    simp

theorem KeySpent.failure_get (h : n.KeySpent key category) : (n.get key category).2.failure ≠ none := by
  rcases get_cases n key category with ⟨name, hk, -⟩ | ⟨name, -, hf, -⟩ | ⟨-, -, hg⟩
  · rw [h.1] at hk
    cases hk
  · rw [h.2.free?] at hf
    cases hf
  · rw [hg]
    simp

end Names

/-- A request for a name that finds none left. -/
def Demand.Exhausts (p : Pass) : Demand → Prop
  | .call (.name key category) => p.names.KeySpent key category
  | .call (.distinct seed _) => p.names.Spent seed
  | .call (.provide desired _) => p.helpers.lookup desired = none ∧ p.names.Spent desired
  | _ => False

namespace Pass

variable {settings : PassSettings} {p : Pass}

/-! ## Failures stay on record -/

theorem Clean.failure (h : p.Clean) : p.failure = none := (failure?_eq_none.1 h).1

theorem Clean.names (h : p.Clean) : p.names.failure = none := (failure?_eq_none.1 h).2

theorem failure_none_of_serve {c : Call} (h : (p.serve settings c).2.failure = none) : p.failure = none := by
  cases c with
  | provide desired body =>
    cases hfound : p.helpers.lookup desired with
    | some helper =>
      rw [serve_known body hfound] at h
      exact (Option.or_eq_none_iff.1 h).1
    | none =>
      rw [serve_provide, hfound] at h
      exact h
  | name key category => exact h
  | distinct seed category => exact h
  | reserve words => exact h
  | define key code => exact h

theorem clean_of_serve {c : Call} (h : (p.serve settings c).2.Clean) : p.Clean :=
  failure?_eq_none.2 ⟨failure_none_of_serve h.failure, (grows_serve p c).failure_none h.names⟩

theorem failure_none_of_perform {d : Demand} (h : (d.perform.run settings p).2.failure = none) : p.failure = none := by
  cases d with
  | call c =>
    rw [Demand.perform, run_perform] at h
    exact failure_none_of_serve h
  | setVariables idNames => exact h

/-- No demand takes a failure off the record. -/
theorem clean_of_perform {d : Demand} (h : (d.perform.run settings p).2.Clean) : p.Clean := by
  cases d with
  | call c =>
    rw [Demand.perform, run_perform] at h
    exact clean_of_serve h
  | setVariables idNames => exact failure?_eq_none.2 ⟨h.failure, h.names⟩

/-- A request that finds no name left leaves a failure on record. -/
theorem not_clean_of_exhausts {d : Demand} (h : d.Exhausts p) : ¬ (d.perform.run settings p).2.Clean := by
  intro hclean
  cases d with
  | setVariables idNames => exact h
  | call c =>
    rw [Demand.perform, run_perform] at hclean
    have hnames := hclean.names
    cases c with
    | name key category => exact h.failure_get hnames
    | distinct seed category => exact h.failure_distinct hnames
    | reserve words => exact h
    | define key code => exact h
    | provide desired body =>
      obtain ⟨hfound, hspent⟩ := h
      rw [serve_provide, hfound] at hnames
      exact hspent.failure_distinct hnames

/-! ## Helpers keep their first body -/

theorem lookup_helper_perform {desired : RawText} {helper : Helper} (h : p.helpers.lookup desired = some helper)
    (d : Demand) : (d.perform.run settings p).2.helpers.lookup desired = some helper := by
  cases d with
  | setVariables idNames => exact h
  | call c =>
    rw [Demand.perform, run_perform]
    cases c with
    | provide desired' body =>
      cases hfound : p.helpers.lookup desired' with
      | some helper' =>
        rw [serve_known body hfound]
        exact h
      | none =>
        rw [serve_provide, hfound]
        rw [List.lookup_append, h, Option.some_or]
    | name key category => exact h
    | distinct seed category => exact h
    | reserve words => exact h
    | define key code => exact h

/-- In a strict pass a helper that was provided has that body, unless another helper's is on record. -/
def Given (desired body : RawText) (p : Pass) : Prop :=
  p.failure = none → ∃ helper, p.helpers.lookup desired = some helper ∧ helper.body = body

theorem Given.perform {desired body : RawText} (h : Given desired body p) (d : Demand) :
    Given desired body (d.perform.run settings p).2 := by
  intro hnone
  obtain ⟨helper, hfound, hbody⟩ := h (failure_none_of_perform hnone)
  exact ⟨helper, lookup_helper_perform hfound d, hbody⟩

theorem given_provide (hstrict : settings.strict = true) (desired : RawText) (body : List RawText) :
    Given desired (.joinLines body) ((Demand.call (.provide desired body)).perform.run settings p).2 := by
  intro hnone
  rw [Demand.perform, run_perform] at hnone ⊢
  cases hfound : p.helpers.lookup desired with
  | some helper =>
    -- the helper is known: another body would be on record as a failure
    rw [serve_known body hfound] at hnone ⊢
    refine ⟨helper, hfound, ?_⟩
    by_contra hbody
    rw [if_pos ⟨hstrict, hbody⟩] at hnone
    simp at hnone
  | none =>
    rw [serve_provide, hfound]
    refine ⟨⟨(p.names.distinct desired .procedure).1, .joinLines body⟩, ?_, rfl⟩
    rw [List.lookup_append, hfound, Option.none_or]
    simp

/-! ## Runs of demands -/

/-- A request that found no name left, somewhere in a run. -/
def RunsOut (settings : PassSettings) (p : Pass) (ds : List Demand) : Prop :=
  ∃ before d rest, ds = before ++ d :: rest ∧ d.Exhausts (p.behind settings before)

/-- A helper that is provided with two bodies. -/
def Contradicts (ds : List Demand) : Prop :=
  ∃ desired body body', .call (.provide desired body) ∈ ds ∧ .call (.provide desired body') ∈ ds ∧
    RawText.joinLines body ≠ RawText.joinLines body'

theorem RunsOut.not_clean {ds : List Demand} (h : RunsOut settings p ds) : ¬ (p.behind settings ds).Clean := by
  obtain ⟨before, d, rest, rfl, hd⟩ := h
  rw [List.append_cons, behind_append, behind_append]
  exact behind_keeps (I := fun p => ¬ p.Clean) (fun p d _ hp hclean => hp (clean_of_perform hclean))
    (not_clean_of_exhausts hd)

theorem Contradicts.failure_ne_none {ds : List Demand} (hstrict : settings.strict = true) (h : Contradicts ds) :
    (p.behind settings ds).failure ≠ none := by
  obtain ⟨desired, body, body', hmem, hmem', hne⟩ := h
  intro hnone
  have hgiven : ∀ body, .call (.provide desired body) ∈ ds →
      Given desired (.joinLines body) (p.behind settings ds) := fun body hmem =>
    behind_of_mem (fun p d hp => hp.perform d) hmem fun _ _ _ => given_provide hstrict desired body
  obtain ⟨helper, hfound, hbody⟩ := hgiven body hmem hnone
  obtain ⟨helper', hfound', hbody'⟩ := hgiven body' hmem' hnone
  rw [hfound] at hfound'
  obtain rfl := Option.some.inj hfound'
  exact hne (hbody.symm.trans hbody')

theorem Contradicts.not_clean {ds : List Demand} (hstrict : settings.strict = true) (h : Contradicts ds) :
    ¬ (p.behind settings ds).Clean :=
  fun hclean => h.failure_ne_none hstrict hclean.failure

end Pass

namespace Generator

open Emit

/-! ## Programs -/

theorem start_of_keySpent {g : Generator} {ws : Workspace} {before rest : List (String × Category)} {key : String}
    {category : Category} (hkeys : declaredKeys ws = before ++ (key, category) :: rest)
    (h : (nameAll (g.startNames ws) before).2.KeySpent key category) : ∃ e, g.start ws = .error e := by
  have hfailure : (nameAll (g.startNames ws) (declaredKeys ws)).2.failure ≠ none := by
    rw [hkeys, nameAll_append]
    intro hnone
    exact h.failure_get ((grows_nameAll _ rest).failure_none hnone)
  obtain ⟨e, he⟩ := Option.ne_none_iff_exists'.1 hfailure
  unfold start
  dsimp only
  rw [he]
  exact ⟨_, rfl⟩

theorem licensed_full {emitters : Emitters} (h : ∀ e ∈ emitters, ∀ s, Within s .full (e.2 s)) :
    Licensed (fun _ => True) emitters :=
  fun _ _ hfound s => ⟨.full, fun _ _ => trivial, h _ (mem_of_lookup hfound) s⟩

theorem generate_error_of_not_clean {g : Generator} {ws : Workspace} {p : Pass} {ds : List Demand}
    {r : Except Failure (List String)} (hstart : g.start ws = .ok p)
    (h : Journal (g.settings ws) (emitTop g.emitters ws.top) p ds r)
    (hclean : ¬ (p.behind (g.settings ws) ds).Clean) : ∃ e, g.generate ws = .error e := by
  have hends : Cleanly (g.settings ws) (emitTop g.emitters ws.top) := cleanly_emitTop g.emitters ws.top
  have hend := hends p (contained_start hstart).2
  unfold Ends at hend
  rw [h.run] at hend
  rw [generate_of_journal hstart h]
  cases r with
  | ok lines => exact absurd hend.1 hclean
  | error f => exact ⟨_, rfl⟩

/-- No program comes of a pass in which a request for a name found none left, or, for a strict
generator, a helper was provided with two bodies: neither when a variable is declared, nor when an
emitter asks. The emission has a journal whenever the emitters are made of the steps of a pass, none
of which finishes the pass or clears its names. -/
theorem generate_aborts (g : Generator) (ws : Workspace) :
    ((∃ (before : List (String × Category)) (key : String) (category : Category) (rest : List (String × Category)),
        declaredKeys ws = before ++ (key, category) :: rest ∧
        (nameAll (g.startNames ws) before).2.KeySpent key category) → ∃ e, g.generate ws = .error e) ∧
    ∀ p, g.start ws = .ok p →
      ((∀ e ∈ g.emitters, ∀ s, Within s .full (e.2 s)) →
        ∃ ds r, Journal (g.settings ws) (emitTop g.emitters ws.top) p ds r) ∧
      ∀ ds r, Journal (g.settings ws) (emitTop g.emitters ws.top) p ds r →
        Pass.RunsOut (g.settings ws) p ds ∨ g.strict = true ∧ Pass.Contradicts ds →
        ∃ e, g.generate ws = .error e := by
  refine ⟨?_, fun p hstart => ⟨fun hemitters => ?_, fun ds r hjournal hfailed => ?_⟩⟩
  · rintro ⟨before, key, category, rest, hkeys, hspent⟩
    obtain ⟨e, he⟩ := start_of_keySpent hkeys hspent
    refine ⟨e, ?_⟩
    unfold generate
    rw [he]
    rfl
  · obtain ⟨ds, r, hjournal, -⟩ := journaled_emitTop (licensed_full hemitters) ws.top p
    exact ⟨ds, r, hjournal⟩
  · refine generate_error_of_not_clean hstart hjournal ?_
    rcases hfailed with hout | ⟨hstrict, htwice⟩
    · exact hout.not_clean
    · exact htwice.not_clean hstrict

/-- What an emitter demands that provides one helper with two bodies. -/
def padTwice : List Demand := [.call (.provide "pad" [.ofString "a"]), .call (.provide "pad" [.ofString "b"])]

/-- A strict generator for one kind of block. -/
def strictPad : Generator where
  emitters := [("pad", fun _ => do
    let _ ← (Demand.call (.provide "pad" [.ofString "a"])).perform
    let _ ← (Demand.call (.provide "pad" [.ofString "b"])).perform
    return .handled)]
  strict := true

/-- A workspace of one block of that kind. -/
def onePad : Workspace := { top := [⟨{ kind := "pad" }, [], none⟩] }

/-- A generator that keeps every name made from `x` for itself. -/
def exhausted : Generator := { reserved := Names.candidates (Identifier.ofText "x") }

/-- A workspace that declares `x`. -/
def oneDeclared : Workspace := { top := [⟨{ kind := "pad", developerVariables := ["x"] }, [], none⟩] }

theorem contradicts_padTwice : Pass.Contradicts padTwice := by
  refine ⟨"pad", [.ofString "a"], [.ofString "b"], by simp [padTwice], by simp [padTwice], fun h => ?_⟩
  have hbodies := ((RawText.joinLines_ofString ["a"]).symm.trans h).trans (RawText.joinLines_ofString ["b"])
  exact absurd (RawText.ofString_inj.1 hbodies) (by decide)

/-- The journal of the block begins with what its emitter demands. -/
theorem starts_onePad (p : Pass) :
    Starts (strictPad.settings onePad) (fun _ => True) (emitTop strictPad.emitters onePad.top) p padTwice := by
  have hblock : Starts (strictPad.settings onePad) (fun _ => True)
      (Block.emit strictPad.emitters ⟨{ kind := "pad" }, [], none⟩ false) p padTwice := by
    rw [Block.emit_eq, if_neg (by simp)]
    refine .emit (by rintro plug ⟨⟩) (fun emitter hfound => ?_) (by rintro ⟨⟩)
    cases hfound
    exact .perform fun _ => .perform fun _ => Journaled.pure _ _
  exact hblock.before fun r => .bind (.pure _) fun lines => .pure _

theorem keySpent_startNames {g : Generator} {ws : Workspace} {key : RawText} {category : Category}
    (hcategory : category ≠ .variable)
    (h : ∀ name ∈ Names.candidates (Identifier.ofText key), name ∈ g.reserved) :
    (g.startNames ws).KeySpent key category := by
  have hkey : (g.startNames ws).resolve key category = key := by rw [Names.resolve, if_neg hcategory]
  rw [Names.KeySpent, hkey, known_startNames]
  refine ⟨Std.HashMap.getElem?_empty, fun name hname => ?_⟩
  exact Names.taken_startNames (h name hname) (Names.isLegal_candidate (Identifier.isLegal_ofText key) hname)

/-- Neither a variable that no name is left for nor a helper with two bodies gives a program. -/
theorem generate_aborts_on_pad :
    ((exhausted.startNames oneDeclared).KeySpent "x" .developerVariable ∧
      ∃ e, exhausted.generate oneDeclared = .error e) ∧
    (∃ p ds r, strictPad.start onePad = .ok p ∧
      Journal (strictPad.settings onePad) (emitTop strictPad.emitters onePad.top) p ds r ∧ Pass.Contradicts ds) ∧
    ∃ e, strictPad.generate onePad = .error e := by
  have hspent : (exhausted.startNames oneDeclared).KeySpent "x" .developerVariable :=
    keySpent_startNames (by simp) fun _ h => h
  have hstart : strictPad.start onePad = .ok { names := strictPad.startNames onePad } := start_of_no_keys rfl
  obtain ⟨ds, r, hjournal, -⟩ := starts_onePad { names := strictPad.startNames onePad }
  have hcontradicts : Pass.Contradicts (padTwice ++ ds) := by
    obtain ⟨desired, body, body', hmem, hmem', hne⟩ := contradicts_padTwice
    exact ⟨desired, body, body', List.mem_append_left _ hmem, List.mem_append_left _ hmem', hne⟩
  refine ⟨⟨hspent, ?_⟩, ⟨_, _, _, hstart, hjournal, hcontradicts⟩, ?_⟩
  · exact (generate_aborts exhausted oneDeclared).1 ⟨[], "x", .developerVariable, [], rfl, hspent⟩
  · exact ((generate_aborts strictPad onePad).2 _ hstart).2 _ _ hjournal (.inr ⟨rfl, hcontradicts⟩)

end Generator
end Blockwright
