import Blockwright.Precedence
import Blockwright.Proofs.Names.Identifiers
import Blockwright.Proofs.Operators.Reading
/-!
# Writing expressions

How a tree is written with the parentheses that the levels of precedence ask for, and that the
grammar reads what is written as the same tree with its chains grouped to the left.
-/

namespace Blockwright.Operators

variable {α : Type}

/-! ## Code -/

namespace Binary

/-- How an operator is written. -/
def symbol : Binary → String
  | .mul => "*" | .div => "/" | .rem => "%" | .add => "+" | .sub => "-"
  | .lt => "<" | .le => "<=" | .gt => ">" | .ge => ">=" | .eq => "==" | .ne => "!="
  | .and => "&&" | .or => "||"

/-- The precedence of an operator, as a place and as an expression. -/
def order : Binary → Order
  | .mul => Order.multiplication
  | .div => Order.division
  | .rem => Order.modulus
  | .add => Order.addition
  | .sub => Order.subtraction
  | .lt | .le | .gt | .ge => Order.relational
  | .eq | .ne => Order.equality
  | .and => Order.logicalAnd
  | .or => Order.logicalOr

end Binary

namespace OpTree

/-- The precedence of the outermost operator. -/
def order : OpTree α → Order
  | .leaf _ => Order.atomic
  | .neg _ => Order.unaryNegation
  | .not _ => Order.logicalNot
  | .binary op _ _ => op.order
  | .choice .. => Order.conditional

/-- How loosely the outermost operator binds. -/
def level : OpTree α → Nat
  | .leaf _ | .neg _ | .not _ => 0
  | .binary op _ _ => op.level
  | .choice .. => 7

/-- The leaves from left to right. -/
def leaves : OpTree α → List α
  | .leaf a => [a]
  | .neg a | .not a => a.leaves
  | .binary _ a b => a.leaves ++ b.leaves
  | .choice c y n => c.leaves ++ (y.leaves ++ n.leaves)

/-- The code of a tree. -/
def code : OpTree String → String
  | .leaf text => text
  | .neg a => "-" ++ Order.wrap a.code Order.unaryNegation a.order
  | .not a => "!" ++ Order.wrap a.code Order.logicalNot a.order
  | .binary op a b =>
    Order.wrap a.code op.order a.order ++ " " ++ op.symbol ++ " " ++ Order.wrap b.code op.order b.order
  | .choice c y n =>
    Order.wrap c.code Order.conditional c.order ++ " ? " ++ Order.wrap y.code Order.conditional y.order ++ " : "
      ++ Order.wrap n.code Order.conditional n.order

/-- The code of a tree in a place that asks for a precedence. -/
def place (outer : Order) (t : OpTree String) : String := Order.wrap t.code outer t.order

end OpTree

/-- Puts tokens in parentheses where their place needs them. -/
def wrapTokens (ts : List Token) (outer inner : Order) : List Token :=
  if Order.needsParens outer inner then .opening :: (ts ++ [.closing]) else ts

namespace OpTree

/-- The tokens of a tree's code. -/
def tokens : OpTree String → List Token
  | .leaf text => [.leaf text]
  | .neg a => .binary .sub :: wrapTokens a.tokens Order.unaryNegation a.order
  | .not a => .bang :: wrapTokens a.tokens Order.logicalNot a.order
  | .binary op a b => wrapTokens a.tokens op.order a.order ++ .binary op :: wrapTokens b.tokens op.order b.order
  | .choice c y n =>
    wrapTokens c.tokens Order.conditional c.order ++ .question ::
      (wrapTokens y.tokens Order.conditional y.order ++ .colon :: wrapTokens n.tokens Order.conditional n.order)

/-! ## Which places need parentheses -/

theorem needsParens_orders (op op' : Binary) :
    Order.needsParens op.order op'.order = !(decide (op'.level < op.level) || (op.isAssociative && op' == op)) := by
  cases op <;> cases op' <;> decide

theorem needsParens_tighter (op : Binary) :
    Order.needsParens op.order Order.atomic = false ∧ Order.needsParens op.order Order.unaryNegation = false ∧
      Order.needsParens op.order Order.logicalNot = false ∧ Order.needsParens op.order Order.conditional = true := by
  cases op <;> decide

/-- Beside a binary operator an expression stands bare if it binds tighter, or continues a chain
of that operator that may be regrouped. -/
theorem bare_binary {op : Binary} {t : OpTree α} (h : Order.needsParens op.order t.order = false) :
    t.level < op.level ∨ op.isAssociative = true ∧ t.root? = some op := by
  cases t with
  | binary op' a b =>
    have hpair := (needsParens_orders op op').symm.trans h
    simp only [Bool.not_eq_false', Bool.or_eq_true, decide_eq_true_eq, Bool.and_eq_true, beq_iff_eq] at hpair
    rcases hpair with hlt | ⟨hop, rfl⟩
    · exact .inl hlt
    · exact .inr ⟨hop, rfl⟩
  | choice c y n => exact Bool.noConfusion ((needsParens_tighter op).2.2.2.symm.trans h)
  | _ => exact .inl op.level_pos

theorem needsParens_in_sign (op : Binary) :
    Order.needsParens Order.unaryNegation op.order = true ∧ Order.needsParens Order.logicalNot op.order = true := by
  cases op <;> decide

/-- Behind a minus sign only a leaf stands bare. -/
theorem bare_neg {t : OpTree α} (h : Order.needsParens Order.unaryNegation t.order = false) : ∃ a, t = .leaf a := by
  cases t with
  | leaf a => exact ⟨a, rfl⟩
  | neg a =>
    have hparens : Order.needsParens Order.unaryNegation Order.unaryNegation = true := by decide
    exact Bool.noConfusion (hparens.symm.trans h)
  | not a =>
    have hparens : Order.needsParens Order.unaryNegation Order.logicalNot = true := by decide
    exact Bool.noConfusion (hparens.symm.trans h)
  | binary op a b => exact Bool.noConfusion ((needsParens_in_sign op).1.symm.trans h)
  | choice c y n =>
    have hparens : Order.needsParens Order.unaryNegation Order.conditional = true := by decide
    exact Bool.noConfusion (hparens.symm.trans h)

/-- Behind a negation a leaf or another negation stands bare. -/
theorem bare_not {t : OpTree α} (h : Order.needsParens Order.logicalNot t.order = false) :
    (∃ a, t = .leaf a) ∨ ∃ a, t = .not a := by
  cases t with
  | leaf a => exact .inl ⟨a, rfl⟩
  | neg a =>
    have hparens : Order.needsParens Order.logicalNot Order.unaryNegation = true := by decide
    exact Bool.noConfusion (hparens.symm.trans h)
  | not a => exact .inr ⟨a, rfl⟩
  | binary op a b => exact Bool.noConfusion ((needsParens_in_sign op).2.symm.trans h)
  | choice c y n =>
    have hparens : Order.needsParens Order.logicalNot Order.conditional = true := by decide
    exact Bool.noConfusion (hparens.symm.trans h)

/-- In a choice everything but another choice stands bare. -/
theorem bare_choice {t : OpTree α} (h : Order.needsParens Order.conditional t.order = false) : t.level ≤ 6 := by
  cases t with
  | binary op a b => exact op.level_le
  | choice c y n =>
    have hparens : Order.needsParens Order.conditional Order.conditional = true := by decide
    exact Bool.noConfusion (hparens.symm.trans h)
  | _ => exact Nat.zero_le _

/-! ## Reading what is written -/

/-- How the tokens of a tree are read: by the level of its outermost operator, as an expression,
and behind an operator whose chains may be regrouped. -/
structure ReadsBack (t : OpTree String) : Prop where
  reads : t.level ≤ 6 → Reads t.level t.tokens t.grouped
  whole : ReadsWhole t.tokens t.grouped
  continues : ∀ op : Binary, op.isAssociative = true →
    Continues op (wrapTokens t.tokens op.order t.order) t.grouped

/-- In a place where it stands bare only if its level is at most `n`, level `n` reads a tree. -/
theorem reads_wrap {t : OpTree String} {n : Nat} {outer : Order}
    (hread : t.level ≤ 6 → Reads t.level t.tokens t.grouped) (hwhole : ReadsWhole t.tokens t.grouped) (hn : n ≤ 6)
    (hbare : Order.needsParens outer t.order = false → t.level ≤ n) :
    Reads n (wrapTokens t.tokens outer t.order) t.grouped := by
  unfold wrapTokens
  by_cases hp : Order.needsParens outer t.order = true
  · rw [if_pos hp]
    exact hwhole.parens.lift (Nat.zero_le n)
  · have hlevel := hbare (Bool.eq_false_iff.2 hp)
    rw [if_neg hp]
    exact (hread (Nat.le_trans hlevel hn)).lift hlevel

/-- Behind an operator of another kind a tree is one operand of its chain. -/
theorem continues_wrap {t : OpTree String} {op : Binary} (hread : t.level ≤ 6 → Reads t.level t.tokens t.grouped)
    (hwhole : ReadsWhole t.tokens t.grouped) (hroot : t.root? ≠ some op) :
    Continues op (wrapTokens t.tokens op.order t.order) t.grouped := by
  have hpos := op.level_pos
  have hle := op.level_le
  apply Continues.single
  · apply reads_wrap hread hwhole (by omega)
    intro hbare
    rcases bare_binary hbare with hlt | ⟨-, heq⟩
    · omega
    · exact absurd heq hroot
  · rwa [root?_grouped]

theorem ReadsBack.ofReads {t : OpTree String} (hle : t.level ≤ 6) (h : Reads t.level t.tokens t.grouped)
    (hroot : ∀ op : Binary, op.isAssociative = true → t.root? ≠ some op) : t.ReadsBack :=
  ⟨fun _ => h, h.whole hle, fun op hop => continues_wrap (fun _ => h) (h.whole hle) (hroot op hop)⟩

theorem readsBack_binary {op : Binary} {a b : OpTree String} (ha : a.ReadsBack) (hb : b.ReadsBack) :
    (OpTree.binary op a b).ReadsBack := by
  have hpos := op.level_pos
  have hle := op.level_le
  have hleft : Reads op.level (wrapTokens a.tokens op.order a.order) a.grouped := by
    apply reads_wrap ha.reads ha.whole hle
    intro hbare
    rcases bare_binary hbare with hlt | ⟨-, heq⟩
    · exact Nat.le_of_lt hlt
    · cases a <;> cases heq
      exact Nat.le_refl _
  by_cases hop : op.isAssociative = true
  · have hgrouped : (OpTree.binary op a b).grouped = attach op a.grouped b.grouped := by rw [grouped, if_pos hop]
    have hread : Reads op.level (OpTree.binary op a b).tokens (OpTree.binary op a b).grouped := by
      rw [hgrouped]
      exact hleft.chain (hb.continues op hop)
    refine ⟨fun _ => hread, hread.whole hle, fun op' hop' => ?_⟩
    -- behind the same operator the chain goes on, behind any other the tree is one operand
    by_cases heq : op' = op
    · subst heq
      have hbare : Order.needsParens op'.order op'.order = false := by rw [needsParens_orders]; simp [hop]
      have htokens : wrapTokens (OpTree.binary op' a b).tokens op'.order op'.order
          = (OpTree.binary op' a b).tokens := by
        rw [wrapTokens, hbare]; rfl
      simp only [order]
      rw [htokens, hgrouped]
      exact (ha.continues op' hop).append (hb.continues op' hop)
    · exact continues_wrap (fun _ => hread) (hread.whole hle) fun h => heq (Option.some.inj h).symm
  · have hgrouped : (OpTree.binary op a b).grouped = .binary op a.grouped b.grouped := by rw [grouped, if_neg hop]
    have hright : Reads (op.level - 1) (wrapTokens b.tokens op.order b.order) b.grouped := by
      apply reads_wrap hb.reads hb.whole (by omega)
      intro hbare
      rcases bare_binary hbare with hlt | ⟨hassoc, -⟩
      · omega
      · exact absurd hassoc hop
    have hread : Reads op.level (OpTree.binary op a b).tokens (OpTree.binary op a b).grouped := by
      rw [hgrouped]
      exact hleft.binary hright
    apply ReadsBack.ofReads (show (OpTree.binary op a b).level ≤ 6 from hle) hread
    rintro op' hop' heq
    cases heq
    exact hop hop'

/-- Every tree is read back from its tokens. -/
theorem readsBack (t : OpTree String) : t.ReadsBack := by
  -- `continues` is part of what the induction carries: a chain goes on inside its right operand
  induction t with
  | leaf text => exact .ofReads (Nat.zero_le 6) (.leaf text) (fun _ _ h => nomatch h)
  | neg a ih =>
    have hoperand : Reads 0 (wrapTokens a.tokens Order.unaryNegation a.order) a.grouped := by
      apply reads_wrap ih.reads ih.whole (by decide)
      intro hbare
      obtain ⟨text, rfl⟩ := bare_neg hbare
      exact Nat.le_refl 0
    exact .ofReads (Nat.zero_le 6) hoperand.neg (fun _ _ h => nomatch h)
  | not a ih =>
    have hoperand : Reads 0 (wrapTokens a.tokens Order.logicalNot a.order) a.grouped := by
      apply reads_wrap ih.reads ih.whole (by decide)
      intro hbare
      rcases bare_not hbare with ⟨text, rfl⟩ | ⟨b, rfl⟩ <;> exact Nat.le_refl 0
    exact .ofReads (Nat.zero_le 6) hoperand.not (fun _ _ h => nomatch h)
  | binary op a b iha ihb => exact readsBack_binary iha ihb
  | choice c y n ihc ihy ihn =>
    have hplace : ∀ t : OpTree String, t.ReadsBack →
        Reads 6 (wrapTokens t.tokens Order.conditional t.order) t.grouped :=
      fun t ht => reads_wrap ht.reads ht.whole (Nat.le_refl 6) bare_choice
    have hwhole := ReadsWhole.choice (hplace c ihc) (hplace y ihy) (hplace n ihn)
    have hlevel : (OpTree.choice c y n).level ≤ 6 →
        Reads 7 (OpTree.choice c y n).tokens (OpTree.choice c y n).grouped :=
      fun h => absurd h (by simp [level])
    exact ⟨hlevel, hwhole, fun op _ => continues_wrap hlevel hwhole (fun h => nomatch h)⟩

end OpTree
end Blockwright.Operators
