import Blockwright.Proofs.Containment.Program
import Blockwright.Proofs.Emit.Journal
import Blockwright.Proofs.Operators.Actions
/-!
# The start of a pass

A pass starts by naming the keys of all variables one after the other. A name that is given stays,
so at the end every key has its name unless a request failed, and then the pass does not start. The
first code in front of the program is the declaration of these names.
-/

namespace Blockwright

namespace Names

/-- An empty registry gives a key the free name made from it. -/
theorem get_of_free {n : Names} {key : RawText} {category : Category} {name : String} (hknown : n.known = {})
    (hfree : n.free? (Identifier.ofText (n.resolve key category)) = some name) :
    (n.get key category).1 = name ∧ (n.get key category).2.failure = n.failure := by
  rcases get_cases n key category with ⟨name', hk, -⟩ | ⟨name', -, hf, hg⟩ | ⟨-, hf, -⟩
  · rw [hknown, Std.HashMap.getElem?_empty] at hk
    cases hk
  · rw [hfree] at hf
    rw [hg]
    exact ⟨(Option.some.inj hf).symm, rfl⟩
  · rw [hfree] at hf
    cases hf

end Names

namespace Generator

/-! ## Keys that are named one after the other -/

theorem nameAll_append (n : Names) (keys keys' : List (String × Category)) :
    (nameAll n (keys ++ keys')).2 = (nameAll (nameAll n keys).2 keys').2 := by
  induction keys generalizing n with
  | nil => rfl
  | cons key keys ih =>
    obtain ⟨key, category⟩ := key
    simp only [List.cons_append, nameAll]
    exact ih _

theorem grows_nameAll (n : Names) (keys : List (String × Category)) : n.Grows (nameAll n keys).2 := by
  induction keys generalizing n with
  | nil => exact .refl n
  | cons key keys ih =>
    obtain ⟨key, category⟩ := key
    exact (Names.grows_get n key category).trans (ih _)

theorem idNames_get (n : Names) (key : RawText) (category : Category) :
    (n.get key category).2.idNames = n.idNames :=
  Names.idNames_serve n (r := .get key category) rfl

theorem idNames_nameAll (n : Names) (keys : List (String × Category)) : (nameAll n keys).2.idNames = n.idNames := by
  induction keys generalizing n with
  | nil => rfl
  | cons key keys ih =>
    obtain ⟨key, category⟩ := key
    exact (ih _).trans (idNames_get n key category)

/-- When no request failed, every key has one of the names that were given. -/
theorem known_nameAll {n : Names} (hn : n.Sound) {keys : List (String × Category)}
    (hf : (nameAll n keys).2.failure = none) {key : String} {category : Category} (h : (key, category) ∈ keys) :
    ∃ name ∈ (nameAll n keys).1, (nameAll n keys).2.known[Names.slot (n.resolve key category) category]? = some name := by
  induction keys generalizing n with
  | nil => cases h
  | cons first rest ih =>
    obtain ⟨key', category'⟩ := first
    have hgrows := grows_nameAll (n.get key' category').2 rest
    rcases List.mem_cons.1 h with heq | hrest
    · obtain ⟨rfl, rfl⟩ := Prod.mk.inj heq
      have hnext : (n.get key category).2.failure = none := hgrows.failure_none hf
      have hne : (n.get key category).1 ≠ "" := by
        rcases hn.answered_get key category with hlegal | ⟨-, hfailed⟩
        · exact Identifier.ne_empty_of_isLegal hlegal
        · exact absurd hnext hfailed
      -- the later requests leave the name as it was given
      exact ⟨_, List.mem_cons_self, hgrows.known _ _ (Names.known_get hne)⟩
    · have hsound : (n.get key' category').2.Sound := hn.serve (.get key' category')
      obtain ⟨name, hname, hknown⟩ := ih hsound hf hrest
      rw [Names.resolve_congr (idNames_get n key' category')] at hknown
      exact ⟨name, List.mem_cons_of_mem _ hname, hknown⟩

/-! ## The first pass -/

variable {g : Generator} {ws : Workspace} {p : Pass}

theorem known_startNames (g : Generator) (ws : Workspace) : (g.startNames ws).known = {} := by
  unfold startNames Names.new
  dsimp only
  rw [Names.known_reserve, Names.known_reserve, Names.known_reserve]

/-- The names that the start of a pass declares, in order. -/
def declared (g : Generator) (ws : Workspace) : List String := (nameAll (g.startNames ws) (declaredKeys ws)).1

/-- The code that declares them. -/
def declaration (g : Generator) (ws : Workspace) : String := "var " ++ Text.joinWith ", " (g.declared ws) ++ ";"

theorem exists_start (h : (nameAll (g.startNames ws) (declaredKeys ws)).2.failure = none) :
    ∃ p, g.start ws = .ok p := by
  unfold start
  dsimp only
  rw [h]
  exact ⟨_, rfl⟩

theorem names_of_start (h : g.start ws = .ok p) :
    p.names = (nameAll (g.startNames ws) (declaredKeys ws)).2 ∧ p.names.failure = none := by
  unfold start at h
  dsimp only at h
  split at h
  · cases h
  · next hf =>
    cases h
    exact ⟨rfl, hf⟩

theorem definitions_of_start (h : g.start ws = .ok p) : p.definitions =
    if g.declared ws = [] then [] else [(.ofString "variables", g.declaration ws)] := by
  unfold start at h
  dsimp only at h
  split at h
  · cases h
  · cases h
    simp only [← List.isEmpty_iff]
    rfl

/-! ## The journal of a pass -/

open Emit

theorem journaled_emitTop {settings : PassSettings} {allowed : Demand → Prop} {emitters : Emitters}
    (h : Licensed allowed emitters) (top : List Block) : Journaled settings allowed (emitTop emitters top) :=
  (Journaled.compositional settings allowed).emitTop (fun b => h.journaled_block b false) top

/-- What comes of a pass is read off the journal of its emission. -/
theorem generate_of_journal {ds : List Demand} {r : Except Failure (List String)} (hstart : g.start ws = .ok p)
    (h : Journal (g.settings ws) (emitTop g.emitters ws.top) p ds r) :
    g.generate ws = match r with
      | .ok lines => .ok (Text.tidy ((p.behind (g.settings ws) ds).finish (Text.joinWith "\n" lines)).1)
      | .error f => .error (.failed f) := by
  unfold generate
  rw [hstart]
  dsimp only [bind, Except.bind]
  rw [h.run]
  cases r with
  | ok lines => rfl
  | error f => rfl

end Generator
end Blockwright
