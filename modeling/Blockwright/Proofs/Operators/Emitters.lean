import Blockwright.Generator
import Blockwright.Proofs.Operators.Actions
/-!
# Emitters write trees

At a site whose sockets are emitted as trees, the emitter of an operator writes the tree of its
block: its operands in the order of the sockets, each with the parentheses that its place needs.
-/

namespace Blockwright

namespace Operators

open Emit

variable {settings : PassSettings}

/-! ## Trees under the names of a registry -/

namespace OpTree

/-- The tree with the texts of its leaves. -/
def texts (n : Names) (t : OpTree Leaf) : OpTree String := t.map (Leaf.text n)

theorem map_congr {α β : Type} {f g : α → β} {t : OpTree α} (h : ∀ a ∈ t.leaves, f a = g a) : t.map f = t.map g := by
  induction t with
  | leaf a => simp only [map, h a List.mem_cons_self]
  | neg a ih => simp only [map, ih h]
  | not a ih => simp only [map, ih h]
  | binary op a b iha ihb =>
    simp only [leaves, List.mem_append] at h
    simp only [map, iha fun x hx => h x (.inl hx), ihb fun x hx => h x (.inr hx)]
  | choice c y n ihc ihy ihn =>
    simp only [leaves, List.mem_append] at h
    simp only [map, ihc fun x hx => h x (.inl hx), ihy fun x hx => h x (.inr (.inl hx)),
      ihn fun x hx => h x (.inr (.inr hx))]

theorem leaves_map {α β : Type} (f : α → β) (t : OpTree α) : (t.map f).leaves = t.leaves.map f := by
  induction t with
  | leaf a => rfl
  | neg a ih => exact ih
  | not a ih => exact ih
  | binary op a b iha ihb => simp only [map, leaves, iha, ihb, List.map_append]
  | choice c y n ihc ihy ihn => simp only [map, leaves, ihc, ihy, ihn, List.map_append]

@[simp] theorem order_map {α β : Type} (f : α → β) (t : OpTree α) : (t.map f).order = t.order := by
  cases t <;> rfl

theorem texts_congr {n n' : Names} {t : OpTree Leaf} (h : ∀ l ∈ t.leaves, l.text n' = l.text n) :
    t.texts n' = t.texts n := map_congr h

theorem isLeaf_texts {n : Names} {t : OpTree Leaf} (h : ∀ l ∈ t.leaves, isLeaf (l.text n) = true) :
    ∀ s ∈ (t.texts n).leaves, isLeaf s = true := by
  intro s hs
  rw [texts, leaves_map] at hs
  obtain ⟨l, hl, rfl⟩ := List.mem_map.1 hs
  exact h l hl

theorem code_ne_empty {t : OpTree String} (h : ∀ s ∈ t.leaves, isLeaf s = true) : t.code ≠ "" := by
  intro hcode
  have hchars := congrArg String.toList hcode
  cases t with
  | leaf s =>
    obtain ⟨c, cs, hcs, -⟩ := head_of_isLeaf (h s List.mem_cons_self)
    simp only [code] at hchars
    rw [hcs] at hchars
    cases hchars
  | _ => simp [code, String.toList_append] at hchars

theorem place_ne_empty {t : OpTree String} (h : ∀ s ∈ t.leaves, isLeaf s = true) (outer : Order) :
    t.place outer ≠ "" := by
  unfold place Order.wrap
  split
  · intro hcode
    have hchars := congrArg String.toList hcode
    simp [String.toList_append] at hchars
  · exact code_ne_empty h

theorem place_leaf {outer : Order} (h : Order.needsParens outer Order.atomic = false) (s : String) :
    (OpTree.leaf s).place outer = s := by
  simp [place, Order.wrap, order, code, h]

end OpTree

/-! ## Sites -/

/-- The action gives the code of a tree, with the precedence of its outermost operator. -/
abbrev Emits (settings : PassSettings) (x : Emit Result) (t : OpTree Leaf) : Prop :=
  Gives settings x t.leaves fun n => .value (t.texts n).code t.order

theorem emits_depends (t : OpTree Leaf) {n n' : Names} (h : ∀ l ∈ t.leaves, l.text n' = l.text n) :
    Result.value (t.texts n').code t.order = .value (t.texts n).code t.order := by
  rw [OpTree.texts_congr h]

/-- What a socket holds is emitted as the tree that stands there, or as nothing. -/
structure Fits (settings : PassSettings) (plug : Option Plug) (part : Option (Option (OpTree Leaf))) : Prop where
  missing : part = none → ∀ q, plug = some q → Gives settings q.emit [] fun _ => .handled
  filled : ∀ t, part = some (some t) → ∃ q, plug = some q ∧ Emits settings q.emit t

/-- Every socket of a site fits. -/
def Holds (settings : PassSettings) (s : Site) (parts : Parts) : Prop :=
  ∀ socket, Fits settings (s.plug? socket) (parts.get socket)

section
variable {s : Site} {parts : Parts} {socket : String} {outer : Order} {t : OpTree Leaf}

theorem Fits.value_missing (h : Fits settings (s.plug? socket) none) :
    Gives settings (s.value socket outer) [] fun _ => "" := by
  unfold Site.value
  cases hplug : s.plug? socket with
  | none => exact .pure ""
  | some q => exact (h.missing rfl q hplug).map (fun _ _ _ => rfl) (fun _ _ => rfl)

theorem Fits.value_filled (h : Fits settings (s.plug? socket) (some (some t))) :
    Gives settings (s.value socket outer) t.leaves fun n => (t.texts n).place outer := by
  obtain ⟨q, hplug, hq⟩ := h.filled t rfl
  unfold Site.value
  simp only [hplug]
  apply hq.map
  · intro n n' hn
    rw [OpTree.texts_congr hn]
  · intro n hn
    have hne := OpTree.code_ne_empty (OpTree.isLeaf_texts hn)
    simp only [if_neg hne, OpTree.place]
    rw [OpTree.texts, OpTree.order_map]

/-- What stands in a socket takes the place of any fallback. -/
theorem Fits.valueOr_filled (h : Fits settings (s.plug? socket) (some (some t))) (fallback : String) :
    Gives settings (s.valueOr socket outer fallback) t.leaves fun n => (t.texts n).place outer := by
  apply h.value_filled.map
  · intro n n' hn
    rw [OpTree.texts_congr hn]
  · intro n hn
    exact congrArg pure (if_neg (OpTree.place_ne_empty (OpTree.isLeaf_texts hn) outer))

theorem Holds.value_missing (h : Holds settings s parts) (hpart : parts.get socket = none) :
    Gives settings (s.value socket outer) [] fun _ => "" :=
  Fits.value_missing (hpart ▸ h socket)

theorem Holds.value_filled (h : Holds settings s parts) (hpart : parts.get socket = some (some t)) :
    Gives settings (s.value socket outer) t.leaves fun n => (t.texts n).place outer :=
  Fits.value_filled (hpart ▸ h socket)

/-- The code in a socket, which is empty only where nothing stands; the literal for that case makes
it the code of the tree in either case. -/
theorem Holds.value_or (h : Holds settings s parts) {text : String} {written : isLeaf text = true}
    (ht : parts.tree? socket (.literal text written) = some t)
    (hbare : Order.needsParens outer Order.atomic = false) :
    ∃ g, Gives settings (s.value socket outer) t.leaves g ∧
      ∀ n, (∀ l ∈ t.leaves, isLeaf (l.text n) = true) →
        (if g n = "" then text else g n) = (t.texts n).place outer ∧ (g n = "" → parts.get socket = none) := by
  unfold Parts.tree? at ht
  cases hpart : parts.get socket with
  | none =>
    rw [hpart] at ht
    cases ht
    refine ⟨_, (h.value_missing hpart).literal text written, fun n _ => ⟨?_, fun _ => rfl⟩⟩
    exact (OpTree.place_leaf hbare text).symm
  | some part =>
    rw [hpart] at ht
    cases ht
    refine ⟨_, h.value_filled hpart, fun n hn => ?_⟩
    have hne := OpTree.place_ne_empty (OpTree.isLeaf_texts hn) outer
    exact ⟨if_neg hne, fun hempty => absurd hempty hne⟩

theorem Holds.valueOr (h : Holds settings s parts) {text : String} {written : isLeaf text = true}
    (ht : parts.tree? socket (.literal text written) = some t)
    (hbare : Order.needsParens outer Order.atomic = false) :
    Gives settings (s.valueOr socket outer text) t.leaves fun n => (t.texts n).place outer := by
  obtain ⟨g, hg, hcode⟩ := h.value_or ht hbare
  apply hg.map
  · intro n n' hn
    rw [OpTree.texts_congr hn]
  · intro n hn
    exact congrArg pure (hcode n hn).1

/-! ## Emitters -/

theorem needsParens_literal (op : Binary) : Order.needsParens op.order Order.atomic = false :=
  (OpTree.needsParens_tighter op).1

/-- The shape that all operators between two sockets have. -/
theorem emits_between (h : Holds settings s parts) {op : Binary} {left right text : String}
    {written : isLeaf text = true} (ht : Reading.between op left right (.literal text written) parts = some t)
    {k : String → String → Emit Result}
    (hk : ∀ a b, k a b = pure (.value (a ++ " " ++ op.symbol ++ " " ++ b) op.order)) :
    Emits settings (do let a ← s.valueOr left op.order text; let b ← s.valueOr right op.order text; k a b) t := by
  unfold Reading.between at ht
  obtain ⟨a, ha, ht⟩ := Option.bind_eq_some_iff.1 ht
  obtain ⟨b, hb, ht⟩ := Option.bind_eq_some_iff.1 ht
  cases ht
  apply (h.valueOr ha (needsParens_literal op)).map₂ (h.valueOr hb (needsParens_literal op))
  · exact fun _ _ hn => emits_depends (.binary op a b) hn
  · intro n _
    rw [hk]
    simp [OpTree.place, OpTree.texts, OpTree.map, OpTree.code, OpTree.order]

theorem arithmeticOperators_lookup {option : String} {op : Binary} (h : Reading.arithmetics.lookup option = some op) :
    arithmeticOperators.lookup option = some (" " ++ op.symbol ++ " ", op.order) ∧ " " ++ op.symbol ++ " " ≠ "" := by
  have hmem := mem_of_lookup h
  simp only [Reading.arithmetics, List.mem_cons, Prod.mk.injEq, List.not_mem_nil, or_false] at hmem
  rcases hmem with ⟨rfl, rfl⟩ | ⟨rfl, rfl⟩ | ⟨rfl, rfl⟩ | ⟨rfl, rfl⟩ <;> exact ⟨rfl, by decide⟩

theorem emits_arithmetic (h : Holds settings s parts) (ht : Reading.arithmetic s.head parts = some t) :
    Emits settings (mathArithmetic s) t := by
  obtain ⟨op, hop, ht⟩ := Option.bind_eq_some_iff.1 ht
  obtain ⟨hlookup, hne⟩ := arithmeticOperators_lookup hop
  unfold mathArithmetic
  simp only [hlookup]
  apply emits_between h ht
  intro a b
  rw [if_neg hne]
  simp only [String.append_assoc]

theorem emits_remainder (h : Holds settings s parts) (ht : Reading.remainder s.head parts = some t) :
    Emits settings (mathModulo s) t := by
  apply emits_between h ht
  intro a b
  simp only [String.append_assoc]
  rfl

theorem comparisons_lookup {option : String} {op : Binary} (h : Reading.comparisons.lookup option = some op) :
    comparisons.lookup option = some op.symbol ∧
      (if op.symbol = "==" || op.symbol = "!=" then Order.equality else Order.relational) = op.order := by
  have hmem := mem_of_lookup h
  simp only [Reading.comparisons, List.mem_cons, Prod.mk.injEq, List.not_mem_nil, or_false] at hmem
  rcases hmem with ⟨rfl, rfl⟩ | ⟨rfl, rfl⟩ | ⟨rfl, rfl⟩ | ⟨rfl, rfl⟩ | ⟨rfl, rfl⟩ | ⟨rfl, rfl⟩ <;> exact ⟨rfl, rfl⟩

theorem emits_comparison (h : Holds settings s parts) (ht : Reading.comparison s.head parts = some t) :
    Emits settings (logicCompare s) t := by
  obtain ⟨op, hop, ht⟩ := Option.bind_eq_some_iff.1 ht
  obtain ⟨hlookup, horder⟩ := comparisons_lookup hop
  unfold logicCompare
  simp only [hlookup, horder]
  exact emits_between h ht fun _ _ => rfl

theorem emits_sign (h : Holds settings s parts) (ht : Reading.sign s.head parts = some t) :
    Emits settings (mathSingle s) t := by
  unfold Reading.sign at ht
  split at ht
  · rename_i hop
    obtain ⟨a, ha, rfl⟩ := Option.map_eq_some_iff.1 ht
    unfold mathSingle
    simp only [hop, if_true]
    apply (h.valueOr ha (by decide)).map
    · exact fun _ _ hn => emits_depends (.neg a) hn
    · intro n hn
      -- what stands bare here is a leaf, so the blank between two minus signs is never written
      obtain ⟨c, cs, hcs, hc⟩ := OpTree.head_behind_minus (OpTree.isLeaf_texts hn)
      have hgap : (((a.texts n).place Order.unaryNegation).toList.head? = some '-') = False := by
        rw [OpTree.place, hcs]
        simpa using hc
      simp only [hgap, if_false]
      rfl
  · cases ht

theorem emits_negation (h : Holds settings s parts) (ht : Reading.negation s.head parts = some t) :
    Emits settings (logicNegate s) t := by
  obtain ⟨a, ha, rfl⟩ := Option.map_eq_some_iff.1 ht
  apply (h.valueOr ha (by decide)).map
  · exact fun _ _ hn => emits_depends (.not a) hn
  · intro n _
    simp [OpTree.place, OpTree.texts, OpTree.map, OpTree.code, OpTree.order]

theorem emits_choice (h : Holds settings s parts) (ht : Reading.choice s.head parts = some t) :
    Emits settings (logicTernary s) t := by
  obtain ⟨c, hc, ht⟩ := Option.bind_eq_some_iff.1 ht
  obtain ⟨y, hy, ht⟩ := Option.bind_eq_some_iff.1 ht
  obtain ⟨n, hn, ht⟩ := Option.bind_eq_some_iff.1 ht
  cases ht
  have hbare : Order.needsParens Order.conditional Order.atomic = false := by decide
  have hplace : Gives settings (logicTernary s) (c.leaves ++ (y.leaves ++ n.leaves)) fun names =>
      .value ((c.texts names).place Order.conditional ++ " ? " ++ (y.texts names).place Order.conditional ++ " : "
        ++ (n.texts names).place Order.conditional) Order.conditional := by
    apply (h.valueOr hc hbare).bind (h := fun condition names =>
      Result.value (condition ++ " ? " ++ (y.texts names).place Order.conditional ++ " : "
        ++ (n.texts names).place Order.conditional) Order.conditional)
    intro condition
    apply (h.valueOr hy hbare).map₂ (h.valueOr hn hbare)
    · intro names names' hnames
      rw [OpTree.texts_congr fun l hl => hnames l (List.mem_append_left _ hl),
        OpTree.texts_congr fun l hl => hnames l (List.mem_append_right _ hl)]
    · exact fun _ _ => rfl
  simpa [Emits, OpTree.leaves, OpTree.texts, OpTree.map, OpTree.code, OpTree.place, OpTree.order] using hplace

theorem logicalOperators_lookup {option : String} {op : Binary} {identity : Bool}
    (h : Reading.logicals.lookup option = some (op, identity)) :
    logicalOperators.lookup option = some ⟨op.symbol, Text.ofBool identity, op.order⟩ := by
  have hmem := mem_of_lookup h
  simp only [Reading.logicals, List.mem_cons, Prod.mk.injEq, List.not_mem_nil, or_false] at hmem
  rcases hmem with ⟨rfl, rfl, rfl⟩ | ⟨rfl, rfl, rfl⟩ <;> rfl

theorem emits_logical (h : Holds settings s parts) (ht : Reading.logical s.head parts = some t) :
    Emits settings (logicOperation s) t := by
  obtain ⟨⟨op, identity⟩, hop, ht⟩ := Option.bind_eq_some_iff.1 ht
  unfold logicOperation
  simp only [logicalOperators_lookup hop]
  dsimp only at ht
  split at ht
  · rename_i hmissing
    simp only [Bool.and_eq_true, Option.isNone_iff_eq_none] at hmissing
    cases ht
    apply Gives.literal
    apply (h.value_missing hmissing.1).map₂ (h.value_missing hmissing.2)
    · exact fun _ _ _ => rfl
    · exact fun _ _ => rfl
  · rename_i hsome
    obtain ⟨a, ha, ht⟩ := Option.bind_eq_some_iff.1 ht
    obtain ⟨b, hb, ht⟩ := Option.bind_eq_some_iff.1 ht
    cases ht
    obtain ⟨ga, hga, hcodea⟩ := h.value_or ha (needsParens_literal op)
    obtain ⟨gb, hgb, hcodeb⟩ := h.value_or hb (needsParens_literal op)
    apply hga.map₂ hgb
    · exact fun _ _ hn => emits_depends (.binary op a b) hn
    · intro n hn
      obtain ⟨hplacea, hemptya⟩ := hcodea n fun l hl => hn l (List.mem_append_left _ hl)
      obtain ⟨hplaceb, hemptyb⟩ := hcodeb n fun l hl => hn l (List.mem_append_right _ hl)
      have hone : ¬(ga n = "" && gb n = "") = true := by
        simp only [Bool.and_eq_true, decide_eq_true_eq]
        rintro ⟨hea, heb⟩
        exact hsome (by simp [hemptya hea, hemptyb heb])
      rw [if_neg hone, hplacea, hplaceb]
      simp [OpTree.place, OpTree.texts, OpTree.map, OpTree.code, OpTree.order]

/-! ## Emitters of leaves -/

/-- Emitters of a kind that reads as a tree write that tree. -/
def Writes (settings : PassSettings) (emitter : Emitter) (reading : Reading) : Prop :=
  ∀ s parts t, Holds settings s parts → reading s.head parts = some t →
    Emits settings (do let r ← emitter s; check; return r) t

theorem Writes.check {emitter : Emitter} {reading : Reading}
    (h : ∀ s parts t, Holds settings s parts → reading s.head parts = some t → Emits settings (emitter s) t) :
    Writes settings emitter reading :=
  fun s parts t hs ht => (h s parts t hs ht).check

theorem writes_truth : Writes settings logicBoolean Reading.truth := by
  refine .check fun s parts t _ ht => ?_
  cases ht
  have hcode : Gives settings (logicBoolean s) [] fun _ =>
      .value (Text.ofBool (s.head.field "BOOL" = "TRUE")) Order.atomic := by
    unfold logicBoolean
    simp only [Text.ofBool, decide_eq_true_eq]
    exact .pure _
  exact hcode.literal _ _

theorem writes_nothing : Writes settings logicNull Reading.nothing := by
  refine .check fun s parts t _ ht => ?_
  cases ht
  exact (Gives.pure _).literal _ _

theorem decimal_cases {text : String} (h : Reading.decimal? text = some t) :
    ∃ written, t = .leaf (.literal text written) := by
  unfold Reading.decimal? at h
  split at h
  · cases h
    exact ⟨_, rfl⟩
  · cases h

theorem behind_minus {cs digits : List Char} (h : Text.dropStart? ['-'] cs = some digits) : cs = '-' :: digits := by
  unfold Text.dropStart? at h
  split at h
  · rename_i hstart
    obtain ⟨rest, rfl⟩ := List.isPrefixOf_iff_prefix.1 hstart
    cases h
    rfl
  · cases h

theorem writes_number : Writes settings mathNumber Reading.number := by
  refine .check fun s parts t _ ht => ?_
  unfold Reading.number at ht
  unfold mathNumber
  dsimp only at ht ⊢
  split at ht
  · rename_i hempty
    cases ht
    rw [if_pos hempty]
    exact (Gives.pure _).literal _ _
  · rename_i hne
    rw [if_neg hne]
    cases hread : Double.read (Text.trim (s.head.field "NUM")) with
    | error e => rw [hread] at ht; cases ht
    | ok n =>
      rw [hread] at ht
      dsimp only at ht ⊢
      by_cases hneg : n.isNegative = true
      · rw [if_pos hneg] at ht ⊢
        obtain ⟨digits, hdigits, ht⟩ := Option.bind_eq_some_iff.1 ht
        obtain ⟨u, hu, rfl⟩ := Option.map_eq_some_iff.1 ht
        obtain ⟨written, rfl⟩ := decimal_cases hu
        have hformat : n.format = "-" ++ String.ofList digits := by
          apply String.toList_injective
          simp [behind_minus hdigits, String.toList_append]
        rw [hformat]
        exact (Gives.pure _).literal _ _
      · rw [if_neg hneg] at ht ⊢
        obtain ⟨written, rfl⟩ := decimal_cases ht
        exact (Gives.pure _).literal _ _

/-- A variable is the one leaf that asks for a name. -/
theorem writes_variableUse : Writes settings variablesGet Reading.variableUse := by
  intro s parts t _ ht
  cases ht
  refine ⟨fun n n' hn => emits_depends (.leaf _) hn, fun p hsound hclean => ?_⟩
  have hfailed : p.failure = none := (Pass.failure?_eq_none.1 hclean).1
  rw [ends_bind]
  unfold variablesGet Site.variableName Emit.name
  rw [ends_bind, ends_modifyGet, ends_pure, ends_bind]
  apply ends_check
  · intro hclean'
    have hnames := (Pass.failure?_eq_none.1 hclean').2
    refine (ends_pure _).2 ⟨rfl, hclean', ?_⟩
    exact congrArg (Result.value · Order.atomic) (Leaf.known_serve hsound hnames).2.symm
  · intro cause hcause
    simp only [Pass.failure?, hfailed, Option.none_or, Option.map_eq_some_iff] at hcause
    obtain ⟨e, he, rfl⟩ := hcause
    exact ⟨e, rfl, he⟩

/-- Every kind of operators and leaves has an emitter that writes its tree. -/
theorem writes_all {kind : String} {reading : Reading} (h : (kind, reading) ∈ Reading.all) :
    ∃ emitter, standard.lookup kind = some emitter ∧ Writes settings emitter reading := by
  simp only [Reading.all, List.mem_cons, Prod.mk.injEq, List.not_mem_nil, or_false] at h
  rcases h with ⟨rfl, rfl⟩ | ⟨rfl, rfl⟩ | ⟨rfl, rfl⟩ | ⟨rfl, rfl⟩ | ⟨rfl, rfl⟩ | ⟨rfl, rfl⟩ | ⟨rfl, rfl⟩ | ⟨rfl, rfl⟩ |
    ⟨rfl, rfl⟩ | ⟨rfl, rfl⟩ | ⟨rfl, rfl⟩
  · exact ⟨mathNumber, rfl, writes_number⟩
  · exact ⟨mathArithmetic, rfl, .check fun _ _ _ h ht => emits_arithmetic h ht⟩
  · exact ⟨mathModulo, rfl, .check fun _ _ _ h ht => emits_remainder h ht⟩
  · exact ⟨mathSingle, rfl, .check fun _ _ _ h ht => emits_sign h ht⟩
  · exact ⟨logicCompare, rfl, .check fun _ _ _ h ht => emits_comparison h ht⟩
  · exact ⟨logicOperation, rfl, .check fun _ _ _ h ht => emits_logical h ht⟩
  · exact ⟨logicNegate, rfl, .check fun _ _ _ h ht => emits_negation h ht⟩
  · exact ⟨logicTernary, rfl, .check fun _ _ _ h ht => emits_choice h ht⟩
  · exact ⟨variablesGet, rfl, writes_variableUse⟩
  · exact ⟨logicBoolean, rfl, writes_truth⟩
  · exact ⟨logicNull, rfl, writes_nothing⟩

end
end Operators
end Blockwright
