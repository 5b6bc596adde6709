import Blockwright.Proofs.Loops.Counting
import Blockwright.Proofs.Program.Parameters
import Blockwright.Proofs.Script.Memory
/-!
# What counting loops count with

The operands of a counting loop come out of its sockets. A whole number that stands there as a literal, and
a variable, are each written as an atom; emitting one only asks for the name of a variable, and what is
written would be the same at every later moment of the pass.
-/

namespace Blockwright

open Operators Emit Loops

variable {settings : PassSettings} {p q : Pass} {b : Block} {socket : String} {key : RawText}

/-! ## Passes -/

/-- What an action gives that only asks for names, and the pass behind it. -/
theorem Operators.Gives.of_run {α : Type} {x : Emit α} {ls : List Leaf} {g : Names → α} (h : Gives settings x ls g)
    (hsound : p.names.Sound) (hclean : p.failure? = none) {a : α} (hrun : x.run settings p = (.ok a, q)) :
    q = p.asking ls ∧ q.failure? = none ∧ a = g q.names := by
  have hends := h.ends p hsound hclean
  rw [Ends, hrun] at hends
  exact hends

/-- An action with modest demands leads to a later moment of the pass. -/
theorem Emit.Journaled.later {α : Type} {x : Emit α} (h : Journaled settings Demand.Modest x) (hsound : p.names.Sound) {a : α}
    (hrun : x.run settings p = (.ok a, q)) : p.Later q := by
  have hends := h.keeps (I := p.Later) (fun _ _ hd hq => hq.perform hd) p ⟨.refl p, hsound⟩
  rw [Ends, hrun] at hends
  exact hends.1

theorem Pass.Later.trans {p' : Pass} (h : p.Later p') (h' : p'.Later q) : p.Later q :=
  ⟨⟨h.1.grows.trans h'.1.grows, h'.1.idNames.trans h.1.idNames, fun code hcode => h'.1.first code (h.1.first code hcode)⟩, h'.2⟩

/-! ## What is in the sockets -/

namespace Loops

/-- The tree of a literal block is the literal of its number. -/
theorem exists_tree_number {x : Double} (h : x.HasLiteral) {head : Head}
    (hread : Double.read (Text.trim (head.field "NUM")) = .ok x) (parts : Parts) :
    ∃ t, Reading.number head parts = some t ∧ requests t.leaves = [] ∧ ∀ n, t.texts n = (Atom.ofDouble x).tree := by
  have hne : Text.trim (head.field "NUM") ≠ "" := by
    intro hempty
    rw [hempty] at hread
    cases hread
  have hdecimal := Atom.isDecimal_ofDouble h
  have hcode := Atom.code_ofDouble h
  rw [Atom.code_eq] at hcode
  unfold Reading.number
  dsimp only
  rw [if_neg hne, hread]
  dsimp only
  obtain ⟨s, m, e, rfl, hnormal, hsign⟩ := h
  rw [Double.isNegative_finite hsign]
  cases s with
  | false =>
    have hformat : (Double.finite false m e).format = (Atom.ofDouble (.finite false m e)).leaf := rfl
    refine ⟨.leaf (.literal _ (isLeaf_of_isDecimal hdecimal)), ?_, rfl, fun n => rfl⟩
    rw [if_neg Bool.false_ne_true, hformat, Reading.decimal?, dif_pos hdecimal]
  | true =>
    have hdigits : Text.dropStart? ['-'] (Double.finite true m e).format.toList =
        some (Atom.ofDouble (.finite true m e)).leaf.toList := by
      have hneg : (Atom.ofDouble (.finite true m e)).negative = true := rfl
      rw [← hcode, hneg, if_pos rfl, String.toList_append]
      exact Text.dropStart?_append ['-'] _
    refine ⟨.neg (.leaf (.literal _ (isLeaf_of_isDecimal hdecimal))), ?_, rfl, fun n => rfl⟩
    rw [if_pos rfl, hdigits, Option.bind_some, String.ofList_toList, Reading.decimal?, dif_pos hdecimal]
    rfl

/-- An operand stands in its place without parentheses. -/
theorem Atom.place_tree (a : Atom) : a.tree.place Order.assignment = a.code := by
  obtain ⟨negative, leaf⟩ := a
  cases negative
  · exact wrap_of_bare (show ¬Order.needsParens Order.assignment Order.atomic = true by decide)
  · exact wrap_of_bare (show ¬Order.needsParens Order.assignment Order.unaryNegation = true by decide)

/-- What an operand is written from: a number, or a variable by its key. -/
inductive Source where
  | literal (x : Double)
  | named (key : RawText)

/-- What is written where variables have the names of a registry. -/
def Source.atom (n : Names) : Source → Atom
  | .literal x => .ofDouble x
  | .named key => .ofName (n.get key .variable).1

/-- The name that is asked for. -/
def Source.requests : Source → List Names.Request
  | .literal _ => []
  | .named key => [.get key .variable]

theorem Source.grows (n : Names) (s : Source) : n.Grows (n.after s.requests) := by
  apply Names.grows_after
  cases s <;> simp [requests]

/-- The number has a literal, or the variable has a name. -/
def Source.Known (n : Names) : Source → Prop
  | .literal x => x.HasLiteral
  | .named key => Identifier.isLegal (n.get key .variable).1 = true ∧ (n.get key .variable).1 ∈ n.used

theorem Source.Known.operand {n : Names} {s : Source} (h : s.Known n) : Operand n (s.atom n) := by
  cases s with
  | literal x => exact .literal h
  | named key => exact .name h.1 h.2

/-- The name that a variable has is legal and has been handed out. -/
theorem used_of_known {n : Names} (hn : n.Sound) (h : (Leaf.named key).Known n) :
    Identifier.isLegal (n.get key .variable).1 = true ∧ (n.get key .variable).1 ∈ n.used := by
  refine ⟨h.isLegal_text hn, ?_⟩
  obtain ⟨name, hname⟩ := h
  rw [Names.get_of_known hname]
  exact hn.known_used _ _ hname

end Loops

namespace Block

/-- A whole number stands in a socket, as a literal that reads as the finite number nearest to it. -/
structure HoldsWhole (b : Block) (socket : String) (k : Int) : Prop where
  literal : ∃ c, b.plugged? socket = some c ∧ c.Silent ∧ c.head.kind = "math_number" ∧ c.head.disabled = false ∧
    c.head.link = .value ∧ Double.read (Text.trim (c.head.field "NUM")) = .ok (.ofInt k)
  finite : ∃ s m e, Double.ofInt k = .finite s m e

theorem HoldsWhole.hasLiteral {k : Int} (h : b.HoldsWhole socket k) : (Double.ofInt k).HasLiteral := by
  obtain ⟨s, m, e, hfinite⟩ := h.finite
  exact Double.hasLiteral_ofInt hfinite

/-- What stands in a socket of a counting loop. -/
inductive Feeds (b : Block) (socket : String) : Source → Prop
  | literal {k : Int} (h : b.HoldsWhole socket k) : Feeds b socket (.literal (.ofInt k))
  | named {key : RawText} (h : b.HoldsVariable socket key) : Feeds b socket (.named key)

/-- Emitting what stands in a socket asks for the name of a variable, if it is one, and gives the code of its atom. -/
theorem Feeds.gives {s : Source} (h : b.Feeds socket s) (settings : PassSettings) (fallback : String) :
    ∃ ls, requests ls = s.requests ∧ Gives settings ((b.site standard).valueOr socket Order.assignment fallback) ls fun n => (s.atom n).code := by
  cases h with
  | @literal k h =>
    obtain ⟨c, hplugged, hsilent, hkind, henabled, hlink, hread⟩ := h.literal
    obtain ⟨t, hreading, hleaves, htexts⟩ := exists_tree_number h.hasLiteral hread (parts c.sockets)
    have htree : c.tree? = some t := by
      obtain ⟨head, sockets, next⟩ := c
      dsimp only at hkind henabled hlink hreading
      simp [tree?, hkind, henabled, hlink, Reading.all, hreading]
    have hgives : Gives settings ((b.site standard).valueOr socket Order.assignment fallback) t.leaves
        fun n => (t.texts n).place Order.assignment := (fits_plugged hplugged hsilent htree).valueOr_filled fallback
    refine ⟨t.leaves, hleaves, ?_⟩
    simp only [htexts, Atom.place_tree] at hgives
    exact hgives
  | @named key h => exact ⟨[.named key], rfl, h.gives (by decide) fallback⟩

/-- What is written for a socket would be the same from then on. -/
theorem Feeds.run {s : Source} (h : b.Feeds socket s) (hsound : p.names.Sound) (hclean : p.failure? = none)
    {fallback code : String}
    (hrun : ((b.site standard).valueOr socket Order.assignment fallback).run settings p = (.ok code, q)) :
    q.failure? = none ∧ ∃ a : Atom, code = a.code ∧ ∀ p', q.Later p' → s.atom p'.names = a ∧ s.Known p'.names := by
  obtain ⟨ls, hls, hgives⟩ := h.gives settings fallback
  obtain ⟨rfl, hclean', rfl⟩ := hgives.of_run hsound hclean hrun
  refine ⟨hclean', s.atom (p.asking ls).names, rfl, fun p' hlater => ?_⟩
  cases h with
  | literal h => exact ⟨rfl, h.hasLiteral⟩
  | @named key h =>
    have hasked : (p.asking ls).names = (p.names.get key .variable).2 := congrArg (p.names.after ·) hls
    have hnames : (p.names.get key .variable).2.failure = none := hasked ▸ (Pass.failure?_eq_none.1 hclean').2
    have hknown := (Leaf.known_serve hsound hnames).1
    rw [← hasked] at hknown
    obtain ⟨hknown', htext⟩ := hknown.mono hlater.1.grows hlater.1.idNames
    exact ⟨congrArg Atom.ofName htext, used_of_known hlater.2 hknown'⟩

/-- Where there is a name for a variable, its atom is written for a socket. -/
theorem Feeds.run_eq {s : Source} (h : b.Feeds socket s) (hsound : p.names.Sound) (hclean : p.failure? = none)
    (hnames : (p.names.after s.requests).failure = none) (settings : PassSettings) (fallback : String) :
    ((b.site standard).valueOr socket Order.assignment fallback).run settings p =
      (.ok (s.atom (p.names.after s.requests)).code, { p with names := p.names.after s.requests }) ∧
      s.Known (p.names.after s.requests) := by
  obtain ⟨ls, hls, hgives⟩ := h.gives settings fallback
  rw [← hls] at hnames ⊢
  obtain ⟨code, q, hrun, rfl, -, rfl⟩ := (hgives.ends p hsound hclean).run_ok hnames
  obtain ⟨-, a, -, hknown⟩ := h.run hsound hclean hrun
  exact ⟨hrun, (hknown _ ⟨.refl _, hsound.after _⟩).2⟩

end Block

end Blockwright
