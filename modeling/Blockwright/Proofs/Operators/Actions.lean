import Blockwright.Proofs.Emit.Ends
import Blockwright.Proofs.Names.Slots
import Blockwright.Proofs.Operators.Expressions
/-!
# Actions that only ask for names

Emitting operators does nothing to a pass but ask for the names of variables, one leaf after the
other. `Gives` says so of an action, and what the action gives back under the names that the pass
then has.
-/

namespace Blockwright

namespace Names

theorem get_of_known {n : Names} {key : RawText} {category : Category} {name : String}
    (h : n.known[slot (n.resolve key category) category]? = some name) : n.get key category = (name, n) := by
  rcases get_cases n key category with ⟨name', hk, hg⟩ | ⟨-, hk, -⟩ | ⟨hk, -⟩
  · rw [hg, Option.some.inj (hk.symm.trans h)]
  · exact absurd (h.symm.trans hk) (by simp)
  · exact absurd (h.symm.trans hk) (by simp)

theorem idNames_after (n : Names) {rs : List Request} (hrs : ∀ r ∈ rs, r.steady = true) :
    (n.after rs).idNames = n.idNames := by
  induction rs generalizing n with
  | nil => rfl
  | cons r rs ih =>
    have hrest := ih (n.serve r).2 fun r' hr' => hrs r' (List.mem_cons_of_mem _ hr')
    exact hrest.trans (idNames_serve n (hrs r List.mem_cons_self))

end Names

namespace Operators

open Names (Grows Sound Request)

/-! ## The names of leaves -/

theorem steady_requests (ls : List Leaf) : ∀ r ∈ requests ls, r.steady = true := by
  intro r hr
  obtain ⟨l, -, hl⟩ := List.mem_filterMap.1 hr
  cases l with
  | literal => cases hl
  | named key => cases hl; rfl

theorem grows_requests (n : Names) (ls : List Leaf) : n.Grows (n.after (requests ls)) := by
  apply Names.grows_after
  intro hreset
  exact Bool.noConfusion (steady_requests ls _ hreset)

theorem requests_append (ls ls' : List Leaf) : requests (ls ++ ls') = requests ls ++ requests ls' :=
  List.filterMap_append

namespace Leaf

/-- The registry has a name for the leaf, if that needs one. -/
def Known (n : Names) : Leaf → Prop
  | .literal .. => True
  | .named key => ∃ name, n.known[Names.slot (n.resolve key .variable) .variable]? = some name

/-- A name that is known stays. -/
theorem Known.mono {n n' : Names} {l : Leaf} (h : l.Known n) (hgrows : n.Grows n') (hid : n'.idNames = n.idNames) :
    l.Known n' ∧ l.text n' = l.text n := by
  cases l with
  | literal => exact ⟨trivial, rfl⟩
  | named key =>
    obtain ⟨name, hname⟩ := h
    have hname' := hgrows.known _ _ hname
    rw [← Names.resolve_congr hid] at hname'
    refine ⟨⟨name, hname'⟩, ?_⟩
    simp only [text]
    rw [Names.get_of_known hname, Names.get_of_known hname']

theorem Known.isLegal_text {n : Names} (hn : n.Sound) {key : RawText} (h : (Leaf.named key).Known n) :
    Identifier.isLegal ((Leaf.named key).text n) = true := by
  obtain ⟨name, hname⟩ := h
  simp only [text]
  rw [Names.get_of_known hname]
  exact hn.isLegal_known hname

theorem Known.isLeaf_text {n : Names} (hn : n.Sound) {l : Leaf} (h : l.Known n) : isLeaf (l.text n) = true := by
  cases l with
  | literal text written => exact written
  | named key => exact isLeaf_of_isLegal (h.isLegal_text hn)

/-- The name that a leaf was just given is known, unless none was left. -/
theorem known_serve {n : Names} (hn : n.Sound) {key : RawText} (hf : (n.get key .variable).2.failure = none) :
    (Leaf.named key).Known (n.get key .variable).2 ∧
      (Leaf.named key).text (n.get key .variable).2 = (n.get key .variable).1 := by
  have hid : (n.get key .variable).2.idNames = n.idNames := Names.idNames_serve n (r := .get key .variable) rfl
  have hne : (n.get key .variable).1 ≠ "" := by
    rcases hn.answered_get key .variable with hlegal | ⟨-, hfailed⟩
    · exact Identifier.ne_empty_of_isLegal hlegal
    · exact absurd hf hfailed
  have hknown := Names.known_get hne
  rw [← Names.resolve_congr hid] at hknown
  refine ⟨⟨_, hknown⟩, ?_⟩
  simp only [text]
  rw [Names.get_of_known hknown]

end Leaf

/-- Behind a run of requests that did not fail, all leaves that asked have names. -/
theorem known_requests {n : Names} (hn : n.Sound) {ls : List Leaf} (hf : (n.after (requests ls)).failure = none) :
    ∀ l ∈ ls, l.Known (n.after (requests ls)) := by
  induction ls generalizing n with
  | nil => simp
  | cons l ls ih =>
    intro l' hl'
    cases l with
    | literal text written =>
      rcases List.mem_cons.1 hl' with rfl | hl'
      · trivial
      · exact ih hn hf l' hl'
    | named key =>
      rcases List.mem_cons.1 hl' with rfl | hl'
      · -- known behind its own request, and no later one takes the name away
        have hrest := grows_requests (n.get key .variable).2 ls
        have hknown := (Leaf.known_serve hn (hrest.failure_none hf)).1
        exact (hknown.mono hrest (Names.idNames_after _ (steady_requests ls))).1
      · exact ih (hn.serve (.get key .variable)) hf l' hl'

end Operators

/-! ## Passes -/

/-- The pass behind the requests of leaves. -/
def Pass.asking (p : Pass) (ls : List Operators.Leaf) : Pass :=
  { p with names := p.names.after (Operators.requests ls) }

theorem Pass.asking_append (p : Pass) (ls ls' : List Operators.Leaf) :
    p.asking (ls ++ ls') = (p.asking ls).asking ls' := by
  simp only [asking, Operators.requests_append, Names.after_append]

/-- A failure because no name was left for one of the leaves. -/
def Pass.Exhausts (p : Pass) (ls : List Operators.Leaf) (f : Failure) : Prop :=
  ∃ e, f.cause = .namesExhausted e ∧ (p.asking ls).names.failure = some e

/-- What fails only for want of a name succeeds where there is one for every leaf. -/
theorem Emit.Ends.run_ok {α : Type} {settings : PassSettings} {p : Pass} {x : Emit α} {Q : α → Pass → Prop}
    {ls : List Operators.Leaf} (h : Ends settings p x Q (p.Exhausts ls)) (hnames : (p.asking ls).names.failure = none) :
    ∃ a p', x.run settings p = (.ok a, p') ∧ Q a p' := by
  unfold Ends at h
  rcases hrun : x.run settings p with ⟨f | a, p'⟩
  · rw [hrun] at h
    obtain ⟨e, -, he⟩ := h
    exact absurd (hnames.symm.trans he) (by simp)
  · rw [hrun] at h
    exact ⟨a, p', rfl, h⟩

namespace Operators

open Emit

variable {settings : PassSettings} {α β : Type}

/-! ## Actions -/

/-- From a pass without failures the action asks for the names of the leaves and nothing else, and
gives back what `g` says under the names of the pass behind it. It fails only for want of a
name. -/
structure Gives (settings : PassSettings) (x : Emit α) (ls : List Leaf) (g : Names → α) : Prop where
  depends : ∀ n n', (∀ l ∈ ls, l.text n' = l.text n) → g n' = g n
  ends : ∀ p : Pass, p.names.Sound → p.failure? = none →
    Ends settings p x (fun a p' => p' = p.asking ls ∧ p'.failure? = none ∧ a = g p'.names) (p.Exhausts ls)

namespace Gives

theorem pure (a : α) : Gives settings (Pure.pure a) [] fun _ => a where
  depends _ _ _ := rfl
  ends _ _ hclean := (ends_pure a).2 ⟨rfl, hclean, rfl⟩

theorem bind {x : Emit α} {k : α → Emit β} {ls ls' : List Leaf} {g : Names → α} {h : α → Names → β}
    (hx : Gives settings x ls g) (hk : ∀ a, Gives settings (k a) ls' (h a)) :
    Gives settings (x >>= k) (ls ++ ls') fun n => h (g n) n := by
  refine ⟨fun n n' hn => ?_, fun p hsound hclean => ?_⟩
  · rw [hx.depends n n' fun l hl => hn l (List.mem_append_left _ hl)]
    exact (hk _).depends n n' fun l hl => hn l (List.mem_append_right _ hl)
  · rw [ends_bind]
    apply (hx.ends p hsound hclean).mono
    · rintro a p' ⟨rfl, hclean', rfl⟩
      have hsound' := hsound.after (requests ls)
      apply ((hk _).ends _ hsound' hclean').mono
      · rintro b p'' ⟨rfl, hclean'', rfl⟩
        -- the leaves of the first action still have the names it got
        have hknown := known_requests hsound (Pass.failure?_eq_none.1 hclean').2
        have hsame := hx.depends (p.asking ls).names ((p.asking ls).asking ls').names fun l hl =>
          ((hknown l hl).mono (grows_requests _ ls') (Names.idNames_after _ (steady_requests ls'))).2
        refine ⟨(p.asking_append ls ls').symm, hclean'', ?_⟩
        rw [hsame]
      · rintro f ⟨e, hcause, he⟩
        exact ⟨e, hcause, by rw [p.asking_append]; exact he⟩
    · rintro f ⟨e, hcause, he⟩
      refine ⟨e, hcause, ?_⟩
      rw [p.asking_append]
      exact (grows_requests _ ls').failure e he

/-- A literal asks for no name. -/
theorem literal {x : Emit α} {g : Names → α} (hx : Gives settings x [] g) (text : String)
    (written : isLeaf text = true) : Gives settings x [.literal text written] g where
  depends n n' _ := hx.depends n n' (by simp)
  ends := hx.ends

/-- What is done with the value may rely on its leaves having names. -/
theorem mapKnown {x : Emit α} {k : α → Emit β} {ls : List Leaf} {g : Names → α} {h : Names → β}
    (hx : Gives settings x ls g) (hdepends : ∀ n n', (∀ l ∈ ls, l.text n' = l.text n) → h n' = h n)
    (hk : ∀ n : Names, n.Sound → (∀ l ∈ ls, l.Known n) → k (g n) = Pure.pure (h n)) :
    Gives settings (x >>= k) ls h := by
  refine ⟨hdepends, fun p hsound hclean => ?_⟩
  rw [ends_bind]
  apply (hx.ends p hsound hclean).mono
  · rintro a p' ⟨rfl, hclean', rfl⟩
    have hknown := known_requests hsound (Pass.failure?_eq_none.1 hclean').2
    rw [hk (p.asking ls).names (hsound.after _) hknown, ends_pure]
    exact ⟨rfl, hclean', rfl⟩
  · exact fun f hf => hf

/-- What is done with the value may rely on the texts of its leaves. -/
theorem map {x : Emit α} {k : α → Emit β} {ls : List Leaf} {g : Names → α} {h : Names → β}
    (hx : Gives settings x ls g) (hdepends : ∀ n n', (∀ l ∈ ls, l.text n' = l.text n) → h n' = h n)
    (hk : ∀ n, (∀ l ∈ ls, isLeaf (l.text n) = true) → k (g n) = Pure.pure (h n)) :
    Gives settings (x >>= k) ls h :=
  hx.mapKnown hdepends fun n hn hknown => hk n fun l hl => (hknown l hl).isLeaf_text hn

/-- What is done with the value only changes it. -/
theorem through {x : Emit α} {k : α → Emit β} {ls : List Leaf} {g : Names → α} (hx : Gives settings x ls g) (f : α → β)
    (hk : ∀ n : Names, n.Sound → (∀ l ∈ ls, l.Known n) → k (g n) = Pure.pure (f (g n))) :
    Gives settings (x >>= k) ls fun n => f (g n) :=
  hx.mapKnown (fun n n' hn => congrArg f (hx.depends n n' hn)) hk

/-- The values of two actions, one after the other. -/
theorem pair {x : Emit α} {y : Emit β} {ls ls' : List Leaf} {g : Names → α} {g' : Names → β}
    (hx : Gives settings x ls g) (hy : Gives settings y ls' g') :
    Gives settings (do let a ← x; let b ← y; return (a, b)) (ls ++ ls') fun n => (g n, g' n) := by
  apply hx.bind (h := fun a n => (a, g' n))
  intro a
  exact hy.through (fun b => (a, b)) fun _ _ _ => rfl

theorem through₂ {γ : Type} {x : Emit α} {y : Emit β} {k : α → β → Emit γ} {ls ls' : List Leaf} {g : Names → α}
    {g' : Names → β} (hx : Gives settings x ls g) (hy : Gives settings y ls' g') (f : α → β → γ)
    (hk : ∀ n : Names, n.Sound → (∀ l ∈ ls ++ ls', l.Known n) → k (g n) (g' n) = Pure.pure (f (g n) (g' n))) :
    Gives settings (do let a ← x; let b ← y; k a b) (ls ++ ls') fun n => f (g n) (g' n) := by
  have hall := (hx.pair hy).through (k := fun r => k r.1 r.2) (fun r => f r.1 r.2) hk
  simpa only [bind_assoc, pure_bind] using hall

theorem through₃ {γ δ : Type} {x : Emit α} {y : Emit β} {z : Emit γ} {k : α → β → γ → Emit δ} {ls ls' ls'' : List Leaf}
    {g : Names → α} {g' : Names → β} {g'' : Names → γ} (hx : Gives settings x ls g) (hy : Gives settings y ls' g')
    (hz : Gives settings z ls'' g'') (f : α → β → γ → δ)
    (hk : ∀ n : Names, n.Sound → (∀ l ∈ ls ++ ls' ++ ls'', l.Known n) →
      k (g n) (g' n) (g'' n) = Pure.pure (f (g n) (g' n) (g'' n))) :
    Gives settings (do let a ← x; let b ← y; let c ← z; k a b c) (ls ++ ls' ++ ls'') fun n => f (g n) (g' n) (g'' n) := by
  have hall := (hx.pair hy).through₂ (k := fun r => k r.1 r.2) hz (fun r => f r.1 r.2) hk
  simpa only [bind_assoc, pure_bind] using hall

theorem map₂ {γ : Type} {x : Emit α} {y : Emit β} {k : α → β → Emit γ} {ls ls' : List Leaf} {g : Names → α}
    {g' : Names → β} {h : Names → γ} (hx : Gives settings x ls g) (hy : Gives settings y ls' g')
    (hdepends : ∀ n n', (∀ l ∈ ls ++ ls', l.text n' = l.text n) → h n' = h n)
    (hk : ∀ n, (∀ l ∈ ls ++ ls', isLeaf (l.text n) = true) → k (g n) (g' n) = Pure.pure (h n)) :
    Gives settings (do let a ← x; let b ← y; k a b) (ls ++ ls') h := by
  have hall := (hx.pair hy).map (k := fun r => k r.1 r.2) hdepends hk
  simpa only [bind_assoc, pure_bind] using hall

theorem check {x : Emit α} {ls : List Leaf} {g : Names → α} (hx : Gives settings x ls g) :
    Gives settings (do let a ← x; Emit.check; return a) ls g := by
  refine ⟨hx.depends, fun p hsound hclean => ?_⟩
  rw [ends_bind]
  apply (hx.ends p hsound hclean).mono
  · rintro a p' ⟨rfl, hclean', rfl⟩
    rw [ends_bind]
    apply ends_check
    · exact fun _ => (ends_pure _).2 ⟨rfl, hclean', rfl⟩
    · exact fun cause hcause => absurd (hclean'.symm.trans hcause) (by simp)
  · exact fun f hf => hf

theorem inBlock {x : Emit α} {ls : List Leaf} {g : Names → α} (hx : Gives settings x ls g) (b : BlockName) :
    Gives settings (Emit.inBlock b x) ls g := by
  refine ⟨hx.depends, fun p hsound hclean => ?_⟩
  rw [ends_inBlock]
  exact hx.ends p hsound hclean

end Gives
end Operators
end Blockwright
