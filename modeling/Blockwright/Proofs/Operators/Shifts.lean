import Mathlib.Tactic.SplitIfs
import Blockwright.Emit.Index
import Blockwright.Proofs.Operators.Emission
/-!
# Positions moved by a fixed amount

The code of a position that is moved, and perhaps negated, parses as the tree of the position with
just these operators put on it, whatever operators the position is made of. Behind a minus sign it
keeps its tree when it was made for that place.
-/

namespace Blockwright

open Emit

namespace Operators

/-! ## Numerals -/

theorem scan_digits {cs : List Char} (h : ∀ c ∈ cs, Text.isDigit c = true) : scan .whole cs = some (cs, []) := by
  induction cs with
  | nil => rfl
  | cons c cs ih =>
    have hnext : Phase.next? .whole c = some .whole := by simp [Phase.next?, h c List.mem_cons_self]
    simp [scan, hnext, ih fun d hd => h d (List.mem_cons_of_mem _ hd)]

theorem isLeaf_ofNat (n : Nat) : isLeaf (Text.ofNat n) = true := by
  have hdigits : ∀ c ∈ (Text.ofNat n).toList, Text.isDigit c = true := fun _ hc => Identifier.isDigit_of_mem_ofNat hc
  obtain ⟨c, cs, hcs⟩ : ∃ c cs, (Text.ofNat n).toList = c :: cs := by
    apply List.exists_cons_of_ne_nil
    rw [Text.ofNat, String.toList_ofList]
    exact Nat.toDigits_ne_nil
  rw [hcs] at hdigits
  apply isLeaf_of_isDecimal
  simp [isDecimal, hcs, hdigits c List.mem_cons_self, scan_digits fun d hd => hdigits d (List.mem_cons_of_mem _ hd)]

theorem isLeaf_ofInt {d : Int} (h : 0 ≤ d) : isLeaf (Text.ofInt d) = true := by
  rw [Text.ofInt, if_neg (by omega)]
  exact isLeaf_ofNat _

/-- No decimal is written with parentheses around it. -/
theorem isNumber_parens (code : String) : Text.isNumber ("(" ++ code ++ ")") = false := by
  have hchars : ("(" ++ code ++ ")").toList = '(' :: (code.toList ++ [')']) := by simp [String.toList_append]
  have hopening : Text.isCodeBlank '(' = false := by decide
  have hclosing : Text.isCodeBlank ')' = false := by decide
  have hdigit : Text.isDigit '(' = false := by decide
  have htrim : Text.trimChars Text.isCodeBlank ('(' :: (code.toList ++ [')'])) = '(' :: (code.toList ++ [')']) := by
    simp [Text.trimChars, hopening, hclosing]
  simp [Text.isNumber, hchars, htrim, hdigit]

theorem isNumber_wrap {code : String} (h : Text.isNumber code = false) (outer inner : Order) :
    Text.isNumber (Order.wrap code outer inner) = false := by
  unfold Order.wrap
  split
  · exact isNumber_parens code
  · exact h

/-! ## Trees of moved positions -/

namespace OpTree

/-- The tree of a position moved by `d`. -/
def moved (d : Int) (t : OpTree String) : OpTree String :=
  if 0 < d then .binary .add t (.leaf (Text.ofInt d))
  else if d < 0 then .binary .sub t (.leaf (Text.ofInt (-d)))
  else t

/-- The tree of a position moved by `d` and perhaps negated. -/
def shifted (d : Int) (negate : Bool) (t : OpTree String) : OpTree String :=
  if negate then .neg (t.moved d) else t.moved d

theorem isLeaf_moved {d : Int} {t : OpTree String} (h : ∀ s ∈ t.leaves, isLeaf s = true) :
    ∀ s ∈ (t.moved d).leaves, isLeaf s = true := by
  unfold moved
  split_ifs with hpos hneg
  · intro s hs
    rcases List.mem_append.1 hs with hs | hs
    · exact h s hs
    · exact List.mem_singleton.1 hs ▸ isLeaf_ofInt (by omega)
  · intro s hs
    rcases List.mem_append.1 hs with hs | hs
    · exact h s hs
    · exact List.mem_singleton.1 hs ▸ isLeaf_ofInt (by omega)
  · exact h

theorem isLeaf_shifted {d : Int} {negate : Bool} {t : OpTree String} (h : ∀ s ∈ t.leaves, isLeaf s = true) :
    ∀ s ∈ (t.shifted d negate).leaves, isLeaf s = true := by
  unfold shifted
  split <;> exact isLeaf_moved h

/-- Grouping the chains of a position leaves what is put on it as it is. -/
theorem grouped_shifted (d : Int) (negate : Bool) (t : OpTree String) :
    (t.shifted d negate).grouped = t.grouped.shifted d negate := by
  have hmoved : (t.moved d).grouped = t.grouped.moved d := by
    unfold moved
    split_ifs <;> rfl
  unfold shifted
  split
  · rw [grouped, hmoved]
  · exact hmoved

/-- A tree is read back in whatever place it stands. -/
theorem parse_place {t : OpTree String} (h : ∀ s ∈ t.leaves, isLeaf s = true) (outer : Order) :
    parse (t.place outer) = some t.grouped := by
  have hlex : lex (t.place outer).toList = some (wrapTokens t.tokens outer t.order) := by
    have hall := (lexes_code h).wrap outer t.order [] ended_nil
    rw [List.append_nil] at hall
    rw [place, hall, lex]
    simp
  have hwhole : ReadsWhole (wrapTokens t.tokens outer t.order) t.grouped := by
    unfold wrapTokens
    split
    · exact t.readsBack.whole.parens.whole (by decide)
    · exact t.readsBack.whole
  have hread := hwhole.eq [] (stops_nil 8)
  rw [List.append_nil] at hread
  simp [parse, hlex, hread]

/-- What stands behind a minus sign in its place for it is the right operand of a difference. -/
theorem parse_behind_minus {t : OpTree String} (h : ∀ s ∈ t.leaves, isLeaf s = true) {x : String} (hx : isLeaf x = true) :
    parse (x ++ " - " ++ t.place Order.subtraction) = some (.binary .sub (.leaf x) t.grouped) := by
  have hcode : x ++ " - " ++ t.place Order.subtraction = (OpTree.binary .sub (.leaf x) t).code := by
    have hbare : Order.wrap x Order.subtraction Order.atomic = x := wrap_of_bare (by decide)
    simp only [code, Binary.order, Binary.symbol, order, hbare, place, String.append_assoc]
    rfl
  rw [hcode]
  refine parse_code fun s hs => ?_
  rcases List.mem_cons.1 hs with rfl | hs
  · exact hx
  · exact h s hs

theorem code_moved_forward {d : Int} (h : 0 < d) (t : OpTree String) :
    (t.moved d).code = t.place Order.addition ++ " + " ++ Text.ofInt d ∧ (t.moved d).order = Order.addition := by
  rw [moved, if_pos h]
  refine ⟨?_, rfl⟩
  rw [code]
  simp only [order, Binary.order, Binary.symbol, place, String.append_assoc]
  rfl

theorem code_moved_back {d : Int} (h : d < 0) (t : OpTree String) :
    (t.moved d).code = t.place Order.subtraction ++ " - " ++ Text.ofInt (-d) ∧ (t.moved d).order = Order.subtraction := by
  rw [moved, if_neg (by omega), if_pos h]
  refine ⟨?_, rfl⟩
  rw [code]
  simp only [order, Binary.order, Binary.symbol, place, String.append_assoc]
  rfl

theorem place_neg (t : OpTree String) (outer : Order) :
    (OpTree.neg t).place outer = Order.wrap ("-" ++ t.place Order.unaryNegation) outer Order.unaryNegation := rfl

/-- A sum or a difference stands in parentheses behind a minus sign. -/
theorem minus_place {t : OpTree String} (h : t.order = Order.addition ∨ t.order = Order.subtraction) :
    "-" ++ t.place Order.unaryNegation = "-(" ++ t.code ++ ")" := by
  have hparens : t.place Order.unaryNegation = "(" ++ t.code ++ ")" := by
    rcases h with h | h <;> exact (congrArg _ h).trans (if_pos (by decide))
  rw [hparens, ← String.append_assoc, ← String.append_assoc]
  rfl

/-- A position written for the place that its move gives it, and then moved in code, is the moved tree. -/
theorem shiftCode_place (t : OpTree String) {d : Int} (hd : Whole.wrap (-d) = -d) (negate : Bool) (outer : Order) :
    shiftCode (t.place (indexOrder d negate outer)) d negate outer = (t.shifted d negate).place outer := by
  rcases Int.lt_trichotomy d 0 with hneg | rfl | hpos
  · obtain ⟨hcode, horder⟩ := code_moved_back hneg t
    have hnot : ¬ 0 < d := by omega
    have hne : d ≠ 0 := by omega
    cases negate with
    | true =>
      have hminus := minus_place (t := t.moved d) (.inr horder)
      simp [shiftCode, indexOrder, shifted, hneg, hnot, hne, hd, place_neg, hminus, hcode, String.append_assoc]
    | false => simp [shiftCode, indexOrder, shifted, hneg, hnot, hd, place, hcode, horder]
  · have hmoved : t.moved 0 = t := rfl
    cases negate with
    | true => simp [shiftCode, indexOrder, shifted, hmoved, place_neg]
    | false => simp [shiftCode, indexOrder, shifted, hmoved]
  · obtain ⟨hcode, horder⟩ := code_moved_forward hpos t
    have hne : d ≠ 0 := by omega
    cases negate with
    | true =>
      have hminus := minus_place (t := t.moved d) (.inl horder)
      simp [shiftCode, indexOrder, shifted, hpos, hne, place_neg, hminus, hcode, String.append_assoc]
    | false => simp [shiftCode, indexOrder, shifted, hpos, place, hcode, horder]

end OpTree

/-! ## Positions in sockets -/

section
variable {settings : PassSettings} {s : Site} {socket : String} {t : OpTree Leaf} {p : Pass}

/-- How far a position is moved: by one less where positions count from one. -/
def moveOf (settings : PassSettings) (head : Head) (delta : Int) : Int :=
  if head.owned && settings.oneBased then delta - 1 else delta

theorem wrap_of_natAbs_le {n : Int} (h : n.natAbs ≤ Whole.greatest) : Whole.wrap n = n := by
  unfold Whole.greatest at h
  unfold Whole.wrap
  rw [Int.bmod_def]
  split <;> omega

/-- The code of a position whose own code is no number, and the pass behind it. -/
theorem ends_index (hsound : p.names.Sound) (hclean : p.failure? = none)
    (hfits : Fits settings (s.plug? socket) (some (some t))) {delta : Int} (hdelta : delta.natAbs < Whole.greatest)
    (negate : Bool) (outer : Order)
    (hcode : (p.asking t.leaves).failure? = none → Text.isNumber (t.texts (p.asking t.leaves).names).code = false) :
    Ends settings p (s.index socket delta negate outer)
      (fun text p' => p' = p.asking t.leaves ∧ p'.failure? = none ∧
        text = ((t.texts p'.names).shifted (moveOf settings s.head delta) negate).place
          (if outer = Order.atomic then Order.none else outer))
      (p.Exhausts t.leaves) := by
  have hmove : (if s.head.owned && settings.oneBased then Whole.wrap (delta - 1) else delta)
      = moveOf settings s.head delta := by
    unfold moveOf
    split
    · exact wrap_of_natAbs_le (by omega)
    · rfl
  have hback : Whole.wrap (-moveOf settings s.head delta) = -moveOf settings s.head delta := by
    apply wrap_of_natAbs_le
    unfold moveOf
    split <;> omega
  unfold Site.index Site.oneBased
  rw [bind_assoc, ends_bind, ends_read, pure_bind]
  simp only [hmove]
  rw [ends_bind]
  refine ((hfits.valueOr_filled _).ends p hsound hclean).mono ?_ fun _ hf => hf
  rintro code p' ⟨rfl, hclean', rfl⟩
  have hnone := fun place => isNumber_wrap (hcode hclean') place (t.texts (p.asking t.leaves).names).order
  rw [OpTree.place, if_neg (by simp [hnone]), ends_pure]
  exact ⟨rfl, hclean', OpTree.shiftCode_place _ hback negate _⟩

end
end Operators

namespace Block

open Operators

variable {settings : PassSettings}

theorem fits_plugged {b c : Block} {socket : String} (hplug : b.plugged? socket = some c) (hb : c.Silent)
    {t : OpTree Leaf} (ht : c.tree? = some t) : Fits settings ((b.site standard).plug? socket) (some (some t)) := by
  rw [plug?_site_eq, hplug]
  refine ⟨fun hnone => ?_, fun u hu => ?_⟩
  · cases hnone
  · cases hu
    exact ⟨_, rfl, emits_silent c hb t ht false⟩

/-- The code of a block of operators, when a pass without failures has names for its variables. -/
theorem run_emit {c : Block} (hb : c.Silent) {t : OpTree Leaf} (ht : c.tree? = some t) {p : Pass} (hsound : p.names.Sound)
    (hclean : p.failure? = none) (hclean' : (p.asking t.leaves).failure? = none) :
    (c.emit standard false).run settings p =
      (.ok (.value (t.texts (p.asking t.leaves).names).code t.order), p.asking t.leaves) := by
  have hemits : Emits settings (c.emit standard false) t := emits_silent c hb t ht false
  have hends := hemits.ends p hsound hclean
  unfold Ends at hends
  rcases hrun : (c.emit standard false).run settings p with ⟨f | r, p'⟩
  · rw [hrun] at hends
    obtain ⟨e, -, he⟩ := hends
    exact absurd (Pass.failure?_eq_none.1 hclean').2 (by simp [he])
  · rw [hrun] at hends
    obtain ⟨rfl, -, rfl⟩ := hends
    rfl

/-- A position in a socket that is a block of operators, and whose code is no number, is moved and
perhaps negated: when its code parses as `e`, the code of the moved position parses as `e` with these
operators put on it. The tree `e` is that of the block up to how chains of one associative operator are
grouped. Made for a place behind a minus sign, the code keeps its tree there. It fails only when no name
is left for a variable. -/
theorem index_parses_shifted {words : List String} {rs : List Names.Request} {p : Pass}
    (hnames : p.names = (Names.new words).after rs) (hclean : p.failure? = none) {b c : Block} {socket : String}
    (hplug : b.plugged? socket = some c) (hb : c.Silent) {t : OpTree Leaf} (ht : c.tree? = some t)
    (hcode : ∀ code order p', (c.emit standard false).run settings p = (.ok (.value code order), p') →
      Text.isNumber code = false)
    {delta : Int} (hdelta : delta.natAbs < Whole.greatest) (negate : Bool) (outer : Order) :
    Ends settings p ((b.site standard).index socket delta negate outer)
      (fun text p' => p' = p.asking t.leaves ∧ ∃ code e,
        (c.emit standard false).run settings p = (.ok (.value code t.order), p') ∧ parse code = some e ∧
        Regroups (t.map (Leaf.text p'.names)) e ∧
        parse text = some (e.shifted (moveOf settings b.head delta) negate) ∧
        (outer = Order.subtraction → ∀ x, isLeaf x = true →
          parse (x ++ " - " ++ text) = some (.binary .sub (.leaf x) (e.shifted (moveOf settings b.head delta) negate))))
      (p.Exhausts t.leaves) := by
  have hsound : p.names.Sound := by
    rw [hnames]
    exact (Names.sound_new words).after rs
  have hnumber : (p.asking t.leaves).failure? = none → Text.isNumber (t.texts (p.asking t.leaves).names).code = false :=
    fun hclean' => hcode _ _ _ (run_emit hb ht hsound hclean hclean')
  refine (ends_index hsound hclean (fits_plugged hplug hb ht) hdelta negate outer hnumber).mono ?_ fun _ hf => hf
  rintro text p' ⟨rfl, hclean', rfl⟩
  have hknown := known_requests hsound (Pass.failure?_eq_none.1 hclean').2
  have hleaves := OpTree.isLeaf_texts fun l hl => (hknown l hl).isLeaf_text (hsound.after (requests t.leaves))
  have hshifted : ∀ s ∈ ((t.texts _).shifted (moveOf settings b.head delta) negate).leaves, isLeaf s = true :=
    OpTree.isLeaf_shifted hleaves
  refine ⟨rfl, _, _, run_emit hb ht hsound hclean hclean', OpTree.parse_code hleaves, OpTree.regroups_grouped _, ?_, ?_⟩
  · rw [← OpTree.grouped_shifted]
    exact OpTree.parse_place hshifted _
  · rintro rfl x hx
    rw [← OpTree.grouped_shifted]
    exact OpTree.parse_behind_minus hshifted hx

/-- The sum of `x` and nothing, with a comment. -/
def lastSum : Block :=
  ⟨{ kind := "math_arithmetic", fields := [⟨"OP", "ADD", false⟩], comment := "last", link := .value },
    [⟨"A", .value, some ⟨{ kind := "variables_get", fields := [⟨"VAR", "x", true⟩], link := .value }, [], none⟩⟩],
    none⟩

/-- The item of a list at a place that is counted from its end. -/
def lookUp : Block :=
  ⟨{ kind := "lists_getIndex", fields := [⟨"WHERE", "FROM_END", false⟩] }, [⟨"AT", .value, some lastSum⟩], none⟩

theorem tree?_lastSum : lastSum.tree? = some (.binary .add (.leaf (.named (.ofString "x"))) (.leaf .zero)) := by
  have hadd : (RawText.ofString "ADD").text = "ADD" := RawText.text_ofString _
  simp [lastSum, tree?, parts, Reading.all, List.lookup_cons, Reading.arithmetic, Reading.arithmetics,
    Reading.variableUse, Reading.between, Parts.tree?, Parts.get, Head.field, Head.field?, Head.written,
    Head.written?, hadd]

theorem silent_lastSum : lastSum.Silent := by
  simp [Silent, lastSum, blocks, socketBlocks, nextBlocks, commentLines, Head.outputConnected]

theorem lookUp_parses_shifted :
    ∃ text e p', ((lookUp.site standard).index "AT" 1 true Order.subtraction).run {} { names := Names.new [] }
        = (.ok text, p') ∧ Regroups (.binary .add (.leaf "x") (.leaf "0")) e ∧
      parse text = some (.neg (.binary .add e (.leaf "1"))) ∧
      parse ("n" ++ " - " ++ text) = some (.binary .sub (.leaf "n") (.neg (.binary .add e (.leaf "1")))) := by
  have hnames : Names.new [] = (Names.new []).after [] := rfl
  have hx := (Leaf.known_serve (Names.sound_new []) get_x.2).2.trans get_x.1
  have hcode : ∀ code order p', (lastSum.emit standard false).run {} { names := Names.new [] }
      = (.ok (.value code order), p') → Text.isNumber code = false := by
    intro code order p' hrun
    have hclean : (Pass.asking { names := Names.new [] } [.named "x", .zero]).failure? = none :=
      Pass.failure?_eq_none.2 ⟨rfl, get_x.2⟩
    have hsum : (lastSum.emit standard false).run {} _ = _ :=
      run_emit silent_lastSum tree?_lastSum (Names.sound_new []) rfl hclean
    rw [hrun] at hsum
    cases hsum
    have htext : Leaf.text (Pass.asking { names := Names.new [] } [.named "x", .zero]).names (.named "x") = "x" := hx
    show Text.isNumber (OpTree.binary .add (.leaf (Leaf.text _ (.named "x"))) (.leaf "0")).code = false
    rw [OpTree.leaves, OpTree.leaves, OpTree.leaves, List.singleton_append, htext]
    decide
  have hends : Ends {} { names := Names.new [] } ((lookUp.site standard).index "AT" 1 true Order.subtraction) _ _ :=
    index_parses_shifted hnames rfl (c := lastSum) rfl silent_lastSum tree?_lastSum hcode (by decide) true Order.subtraction
  unfold Ends at hends
  rcases hrun : ((lookUp.site standard).index "AT" 1 true Order.subtraction).run {} { names := Names.new [] }
    with ⟨f | text, p'⟩
  · rw [hrun] at hends
    obtain ⟨e, -, he⟩ := hends
    exact absurd (get_x.2.symm.trans he) (by simp)
  · rw [hrun] at hends
    obtain ⟨rfl, code, e, -, -, hregroups, htext, hminus⟩ := hends
    refine ⟨text, e, _, rfl, ?_, htext, hminus rfl "n" (by decide)⟩
    rw [← hx]
    exact hregroups

end Block
end Blockwright
