import Blockwright.Proofs.Operators.Grammar
/-!
# Reading expressions

What the grammar makes of tokens in front of any others that it cannot take further. Each rule
says how the reading of an expression is put together from the readings of its parts. Sums, products
and both logical operators mean the same however a chain of them is grouped: `Regroups` says that two
trees differ in that only, and `OpTree.grouped` is the tree whose chains all group to the left.
-/

/-! ## Regrouping chains -/

namespace Blockwright.Operators

variable {α : Type}

/-- The operators whose chains may be grouped either way. -/
def Binary.isAssociative : Binary → Bool
  | .add | .mul | .and | .or => true
  | _ => false

/-- The trees differ only in how chains of one associative operator are grouped. -/
inductive Regroups : OpTree α → OpTree α → Prop
  | assoc {op : Binary} (hop : op.isAssociative = true) (a b c : OpTree α) :
      Regroups (.binary op a (.binary op b c)) (.binary op (.binary op a b) c)
  | refl (a : OpTree α) : Regroups a a
  | symm {a b : OpTree α} : Regroups a b → Regroups b a
  | trans {a b c : OpTree α} : Regroups a b → Regroups b c → Regroups a c
  | neg {a a' : OpTree α} : Regroups a a' → Regroups (.neg a) (.neg a')
  | not {a a' : OpTree α} : Regroups a a' → Regroups (.not a) (.not a')
  | binary (op : Binary) {a a' b b' : OpTree α} :
      Regroups a a' → Regroups b b' → Regroups (.binary op a b) (.binary op a' b')
  | choice {c c' y y' n n' : OpTree α} :
      Regroups c c' → Regroups y y' → Regroups n n' → Regroups (.choice c y n) (.choice c' y' n')

/-- The outermost operator, when that stands between two operands. -/
def OpTree.root? : OpTree α → Option Binary
  | .binary op _ _ => some op
  | _ => none

theorem Regroups.root? {a b : OpTree α} (h : Regroups a b) : a.root? = b.root? := by
  induction h with
  | symm _ ih => exact ih.symm
  | trans _ _ ih ih' => exact ih.trans ih'
  | _ => rfl

namespace OpTree

/-- Puts `left` in front of the chain of an operator that `right` is. -/
def attach (op : Binary) (left : OpTree α) (right : OpTree α) : OpTree α :=
  match right with
  | .binary op' b c => if op' = op then .binary op (attach op left b) c else .binary op left (.binary op' b c)
  | right => .binary op left right

/-- The tree with its chains grouped to the left. -/
def grouped : OpTree α → OpTree α
  | .leaf a => .leaf a
  | .neg a => .neg a.grouped
  | .not a => .not a.grouped
  | .binary op a b => if op.isAssociative then attach op a.grouped b.grouped else .binary op a.grouped b.grouped
  | .choice c y n => .choice c.grouped y.grouped n.grouped

theorem attach_of_root_ne {op : Binary} {left right : OpTree α} (h : right.root? ≠ some op) :
    attach op left right = .binary op left right := by
  unfold attach
  split
  · rename_i op' b c
    have hne : op' ≠ op := fun he => h (by rw [root?, he])
    rw [if_neg hne]
  · rfl

theorem attach_binary (op : Binary) (left b c : OpTree α) :
    attach op left (.binary op b c) = .binary op (attach op left b) c := by
  rw [attach, if_pos rfl]

theorem root?_attach (op : Binary) (left right : OpTree α) : (attach op left right).root? = some op := by
  unfold attach
  split
  · split <;> rfl
  · rfl

/-- Two chains put in front of a third one after the other, or as one. -/
theorem attach_attach (op : Binary) (a b c : OpTree α) :
    attach op (attach op a b) c = attach op a (attach op b c) := by
  -- the recursion goes down the left side of the third chain
  by_cases hc : c.root? = some op
  · match c, hc with
    | .binary _ d e, rfl => rw [attach_binary, attach_binary, attach_binary, attach_attach op a b d]
  · rw [attach_of_root_ne hc, attach_of_root_ne hc, attach_binary]

theorem root?_grouped (t : OpTree α) : t.grouped.root? = t.root? := by
  cases t with
  | binary op a b =>
    unfold grouped
    split
    · exact root?_attach op _ _
    · rfl
  | _ => rfl

theorem regroups_attach {op : Binary} (hop : op.isAssociative = true) (a b : OpTree α) :
    Regroups (.binary op a b) (attach op a b) := by
  by_cases hb : b.root? = some op
  · match b, hb with
    | .binary _ c d, rfl =>
      rw [attach_binary]
      exact (Regroups.assoc hop a c d).trans (.binary op (regroups_attach hop a c) (.refl d))
  · rw [attach_of_root_ne hb]
    exact .refl _

/-- Grouping to the left is regrouping. -/
theorem regroups_grouped (t : OpTree α) : Regroups t t.grouped := by
  induction t with
  | leaf a => exact .refl _
  | neg a ih => exact .neg ih
  | not a ih => exact .not ih
  | binary op a b iha ihb =>
    unfold grouped
    split
    · rename_i hop
      exact (Regroups.binary op iha ihb).trans (regroups_attach hop _ _)
    · exact .binary op iha ihb
  | choice c y n ihc ihy ihn => exact .choice ihc ihy ihn

end OpTree
end Blockwright.Operators

namespace Blockwright.Operators

/-! ## Where a level stops -/

/-- The least level at which a token takes an expression further. -/
def Token.level : Token → Nat
  | .binary op => op.level
  | .question => 7
  | _ => 8

/-- No operator of a level below `n` follows. -/
def Stops (n : Nat) (rest : List Token) : Prop := ∀ token ∈ rest.head?, n ≤ token.level

theorem stops_nil (n : Nat) : Stops n [] := by simp [Stops]

theorem stops_cons {n : Nat} {token : Token} {rest : List Token} (h : n ≤ token.level) : Stops n (token :: rest) := by
  intro t ht
  cases ht
  exact h

theorem Stops.mono {m n : Nat} {rest : List Token} (h : Stops n rest) (hmn : m ≤ n) : Stops m rest :=
  fun token ht => Nat.le_trans hmn (h token ht)

theorem Binary.level_pos (op : Binary) : 0 < op.level := by cases op <;> decide

theorem stops_one (rest : List Token) : Stops 1 rest := by
  intro token _
  cases token with
  | binary op => exact op.level_pos
  | _ => simp [Token.level]

theorem Binary.level_le (op : Binary) : op.level ≤ 6 := by cases op <;> decide

/-- A level adds nothing to a tree when no operator of it follows. -/
theorem chain_stop {n : Nat} {t : OpTree String} {rest : List Token} (h : Stops (n + 1) rest) :
    chain n t rest = some (t, rest) := by
  cases rest with
  | nil => rw [chain]; simp
  | cons token rest =>
    have hlevel := h token rfl
    cases token with
    | binary op =>
      have hne : op.level ≠ n := by simp only [Token.level] at hlevel; omega
      rw [chain, if_neg hne]
    | _ => rw [chain]; simp

/-! ## Readings -/

/-- In front of tokens that take it no further, the operators of levels up to `n` read `ts` as
the tree `t`. The last level may go on behind it. -/
structure Reads (n : Nat) (ts : List Token) (t : OpTree String) : Prop where
  ne_nil : ts ≠ []
  eq : ∀ rest, Stops n rest → operators n (ts ++ rest) = chain n t rest

/-- In front of tokens that take it no further, an expression reads `ts` as the tree `t`. -/
structure ReadsWhole (ts : List Token) (t : OpTree String) : Prop where
  ne_nil : ts ≠ []
  eq : ∀ rest, Stops 8 rest → expression (ts ++ rest) = some (t, rest)

theorem length_lt_append {ts : List Token} (h : ts ≠ []) (rest : List Token) : rest.length < (ts ++ rest).length := by
  have hpos := List.length_pos_iff.2 h
  rw [List.length_append]
  omega

namespace Reads

variable {n : Nat} {ts us : List Token} {t u : OpTree String}

theorem succ (h : Reads n ts t) : Reads (n + 1) ts t := by
  refine ⟨h.ne_nil, fun rest hrest => ?_⟩
  rw [operators, h.eq rest (hrest.mono (Nat.le_succ n)), chain_stop hrest]
  exact if_pos (length_lt_append h.ne_nil rest)

theorem lift {m : Nat} (h : Reads m ts t) (hmn : m ≤ n) : Reads n ts t := by
  induction hmn with
  | refl => exact h
  | step _ ih => exact ih.succ

theorem whole (h : Reads n ts t) (hn : n ≤ 6) : ReadsWhole ts t := by
  have h6 := h.lift hn
  refine ⟨h.ne_nil, fun rest hrest => ?_⟩
  rw [expression, h6.eq rest (hrest.mono (by decide)), chain_stop (hrest.mono (by decide))]
  -- only a question mark would make it the condition of a choice
  cases rest with
  | nil => rfl
  | cons token rest =>
    cases token with
    | question => exact absurd (hrest _ rfl) (by decide)
    | _ => rfl

theorem ofOperand (hne : ts ≠ []) (h : ∀ rest, operand (ts ++ rest) = some (t, rest)) : Reads 0 ts t := by
  refine ⟨hne, fun rest _ => ?_⟩
  rw [operators, h rest, chain_stop (stops_one rest)]

/-- An operand takes nothing of what follows it. -/
theorem operand_eq (h : Reads 0 ts t) (rest : List Token) : operand (ts ++ rest) = some (t, rest) := by
  have hread := h.eq rest ((stops_one rest).mono (by decide))
  rwa [operators, chain_stop (stops_one rest)] at hread

theorem leaf (text : String) : Reads 0 [.leaf text] (.leaf text) := by
  apply ofOperand (by simp)
  intro rest
  rw [List.singleton_append, operand]

theorem neg (h : Reads 0 ts t) : Reads 0 (.binary .sub :: ts) (.neg t) := by
  apply ofOperand (by simp)
  intro rest
  rw [List.cons_append, operand, h.operand_eq rest]
  rfl

theorem not (h : Reads 0 ts t) : Reads 0 (.bang :: ts) (.not t) := by
  apply ofOperand (by simp)
  intro rest
  rw [List.cons_append, operand, h.operand_eq rest]
  rfl

end Reads

/-- What stands in parentheses is an operand. -/
theorem ReadsWhole.parens {ts : List Token} {t : OpTree String} (h : ReadsWhole ts t) :
    Reads 0 (.opening :: (ts ++ [Token.closing])) t := by
  apply Reads.ofOperand (by simp)
  intro rest
  have hclosing : Stops 8 (.closing :: rest) := stops_cons (by decide)
  rw [List.cons_append, List.append_assoc, List.singleton_append, operand, h.eq _ hclosing]

/-- A choice takes operators of any level in its three places. -/
theorem ReadsWhole.choice {cs ys ns : List Token} {c y n : OpTree String} (hc : Reads 6 cs c) (hy : Reads 6 ys y)
    (hn : Reads 6 ns n) : ReadsWhole (cs ++ .question :: (ys ++ .colon :: ns)) (.choice c y n) := by
  refine ⟨by simp, fun rest hrest => ?_⟩
  have hquestion : ∀ more, Stops 7 (.question :: more) := fun _ => stops_cons (by decide)
  have hcolon : ∀ more, Stops 8 (.colon :: more) := fun _ => stops_cons (by decide)
  have hcondition := hc.eq (.question :: (ys ++ .colon :: (ns ++ rest))) ((hquestion _).mono (by decide))
  rw [chain_stop (hquestion _)] at hcondition
  have hyes := (hy.whole (by decide)).eq (.colon :: (ns ++ rest)) (hcolon _)
  have hno := (hn.whole (by decide)).eq rest hrest
  simp only [List.append_assoc, List.cons_append]
  rw [expression, hcondition]
  simp only [hyes, hno, List.length_append, List.length_cons]
  rw [if_pos (by omega), if_pos (by omega)]
  rfl

/-! ## Chains -/

/-- Behind an operator, its level takes `ts` into the chain that it has read so far. -/
def Continues (op : Binary) (ts : List Token) (t : OpTree String) : Prop :=
  ∀ left rest, Stops op.level rest →
    chain op.level left (.binary op :: (ts ++ rest)) = chain op.level (OpTree.attach op left t) rest

theorem chain_binary {op : Binary} {ts : List Token} {t : OpTree String} (h : Reads (op.level - 1) ts t)
    (left : OpTree String) {rest : List Token} (hrest : Stops op.level rest) :
    chain op.level left (.binary op :: (ts ++ rest)) = chain op.level (.binary op left t) rest := by
  have hpos := op.level_pos
  have hstop : Stops (op.level - 1 + 1) rest := hrest.mono (by omega)
  have hlength := length_lt_append h.ne_nil rest
  -- the tighter level stops where the operand ends, and the chain goes on from there
  rw [chain, if_pos rfl, h.eq rest (hrest.mono (by omega)), chain_stop hstop]
  exact if_pos (Nat.lt_succ_of_lt hlength)

theorem Continues.single {op : Binary} {ts : List Token} {t : OpTree String} (h : Reads (op.level - 1) ts t)
    (hroot : t.root? ≠ some op) : Continues op ts t := by
  intro left rest hrest
  rw [chain_binary h left hrest, OpTree.attach_of_root_ne hroot]

theorem Continues.append {op : Binary} {ts us : List Token} {t u : OpTree String} (ht : Continues op ts t)
    (hu : Continues op us u) : Continues op (ts ++ .binary op :: us) (OpTree.attach op t u) := by
  intro left rest hrest
  have hop : Stops op.level (.binary op :: (us ++ rest)) := stops_cons (Nat.le_refl _)
  rw [List.append_assoc, List.cons_append, ht left _ hop, hu _ rest hrest, OpTree.attach_attach]

theorem Reads.chain {op : Binary} {ts us : List Token} {t u : OpTree String} (ht : Reads op.level ts t)
    (hu : Continues op us u) : Reads op.level (ts ++ .binary op :: us) (OpTree.attach op t u) := by
  refine ⟨by simp, fun rest hrest => ?_⟩
  have hop : Stops op.level (.binary op :: (us ++ rest)) := stops_cons (Nat.le_refl _)
  rw [List.append_assoc, List.cons_append, ht.eq _ hop, hu _ rest hrest]

theorem Reads.binary {op : Binary} {ts us : List Token} {t u : OpTree String} (ht : Reads op.level ts t)
    (hu : Reads (op.level - 1) us u) : Reads op.level (ts ++ .binary op :: us) (.binary op t u) := by
  refine ⟨by simp, fun rest hrest => ?_⟩
  have hop : Stops op.level (.binary op :: (us ++ rest)) := stops_cons (Nat.le_refl _)
  rw [List.append_assoc, List.cons_append, ht.eq _ hop, chain_binary hu t hrest]

end Blockwright.Operators
