import Blockwright.Proofs.Emit.Lined
import Blockwright.Proofs.Sockets.Branches
import Blockwright.Proofs.Sockets.Kinds
import Blockwright.Proofs.Text.Prefixes
import Blockwright.Proofs.Twins.Program
/-!
# Statements in statements

A block that is no definition writes its comments, its own code and what is chained behind it, in this order,
and each of them ends its line unless it is a value. The statements in one of its sockets stand in its code
one level deeper, below a line of the block's own and, in a loop, behind the loop trap. A definition writes the
same, but not in place: its code goes in front of the program. So a statement carries as many indents as there are
sockets around it, counted from the block or the definition that its code goes with.
-/

namespace Blockwright

open Emit Text

variable {settings : PassSettings} {p q : Pass} {r : Result} {b : Block} {socket code : String}

/-! ## The top of a body -/

/-- The loop trap of a block, with its id for the mark. -/
def PassSettings.trap (settings : PassSettings) (id : String) : String :=
  replaceAll "%1" (quote id) settings.loopTrap

/-- What stands at the top of a body, before the statements in it: nothing, or a loop trap one level deeper. -/
inductive PassSettings.Opening (settings : PassSettings) : String → Prop
  | nothing : Opening settings ""
  | trap (id : String) (set : settings.loopTrap ≠ "") :
    Opening settings (prefixLines (settings.trap id) settings.indent)

namespace Block

/-- The code holds the statements of a socket one level deeper, below a line and behind the top of the body. -/
def Frames (settings : PassSettings) (b : Block) (socket code : String) : Prop :=
  ∃ front opening body back p q, code = front ++ (opening ++ deeper settings body) ++ back ∧ endsLine front = true ∧
    settings.Opening opening ∧ b.Body standard settings socket p body q

/-- The result is such code. -/
def Framed (settings : PassSettings) (b : Block) (socket : String) (r : Result) : Prop :=
  ∃ code, r = .statement code ∧ b.Frames settings socket code

/-- The emitter of the block's kind writes the statements of the socket: the kind reads it for statements, and if
it is that of a branch, then there is such a branch. -/
def Writes (b : Block) (socket : String) : Prop :=
  ∃ k ∈ KindSockets.standard, k.kind = b.head.kind ∧ (∃ name ∈ k.statements, name.Fits socket) ∧
    ∀ n, socket = "DO" ++ Text.ofNat n → b.Branches n

end Block

/-! ## Loops -/

namespace Emit

theorem exists_loopBody (h : (loopBody (b.site standard) socket).run settings p = (.ok code, q)) :
    ∃ opening body, code = opening ++ deeper settings body ∧ settings.Opening opening ∧
      b.Body standard settings socket p body q := by
  obtain ⟨read, p', hread, htrapped⟩ := run_bind_eq_ok_iff.1 h
  obtain ⟨body, hbody, rfl⟩ := Block.exists_body hread
  obtain ⟨settings', p'', hsettings, hcode⟩ := run_bind_eq_ok_iff.1 htrapped
  cases hsettings
  split at hcode
  · obtain ⟨rfl, rfl⟩ := run_pure_eq_ok_iff.1 hcode
    exact ⟨"", body, (String.empty_append).symm, .nothing, hbody⟩
  · rename_i hset
    obtain ⟨rfl, rfl⟩ := run_pure_eq_ok_iff.1 hcode
    exact ⟨_, body, rfl, .trap b.head.id hset, hbody⟩

theorem frames_loopBody (h : (loopBody (b.site standard) socket).run settings p = (.ok code, q)) {front : String}
    (hfront : endsLine front = true) (back : String) : b.Frames settings socket (front ++ code ++ back) := by
  obtain ⟨opening, body, rfl, hopening, hbody⟩ := exists_loopBody h
  exact ⟨front, opening, body, back, p, q, rfl, hfront, hopening, hbody⟩

theorem framed_controlsRepeat (h : (controlsRepeat (b.site standard)).run settings p = (.ok r, q)) :
    b.Framed settings "DO" r := by
  obtain ⟨times, p₁, -, h⟩ := run_bind_eq_ok_iff.1 h
  obtain ⟨body, p₂, hbody, h⟩ := run_bind_eq_ok_iff.1 h
  obtain ⟨loopVar, p₃, -, h⟩ := run_bind_eq_ok_iff.1 h
  obtain ⟨⟨before, endVar⟩, p₄, -, h⟩ := run_bind_eq_ok_iff.1 h
  obtain ⟨rfl, -⟩ := run_pure_eq_ok_iff.1 h
  exact ⟨_, rfl, frames_loopBody hbody (endsLine_append _ (by decide)) _⟩

theorem framed_controlsWhileUntil (h : (controlsWhileUntil (b.site standard)).run settings p = (.ok r, q)) :
    b.Framed settings "DO" r := by
  unfold controlsWhileUntil at h
  dsimp only at h
  split at h
  · cases h
  · obtain ⟨condition, p₁, -, h⟩ := run_bind_eq_ok_iff.1 h
    obtain ⟨body, p₂, hbody, h⟩ := run_bind_eq_ok_iff.1 h
    obtain ⟨rfl, -⟩ := run_pure_eq_ok_iff.1 h
    exact ⟨_, rfl, frames_loopBody hbody (endsLine_append _ (by decide)) _⟩

theorem framed_controlsFor (h : (controlsFor (b.site standard)).run settings p = (.ok r, q)) :
    b.Framed settings "DO" r := by
  obtain ⟨v, p₁, -, h⟩ := run_bind_eq_ok_iff.1 h
  obtain ⟨start, p₂, -, h⟩ := run_bind_eq_ok_iff.1 h
  obtain ⟨stop, p₃, -, h⟩ := run_bind_eq_ok_iff.1 h
  obtain ⟨step, p₄, -, h⟩ := run_bind_eq_ok_iff.1 h
  obtain ⟨body, p₅, hbody, h⟩ := run_bind_eq_ok_iff.1 h
  split at h
  · obtain ⟨rfl, -⟩ := run_pure_eq_ok_iff.1 h
    exact ⟨_, rfl, frames_loopBody hbody (endsLine_append _ (by decide)) _⟩
  · obtain ⟨⟨beforeStart, startVar⟩, p₆, -, h⟩ := run_bind_eq_ok_iff.1 h
    obtain ⟨⟨beforeStop, stopVar⟩, p₇, -, h⟩ := run_bind_eq_ok_iff.1 h
    obtain ⟨inc, p₈, -, h⟩ := run_bind_eq_ok_iff.1 h
    obtain ⟨indent, p₉, -, h⟩ := run_bind_eq_ok_iff.1 h
    obtain ⟨rfl, -⟩ := run_pure_eq_ok_iff.1 h
    exact ⟨_, rfl, frames_loopBody hbody (endsLine_append _ (endsLine_append _ (by decide))) _⟩

theorem framed_controlsForEach (h : (controlsForEach (b.site standard)).run settings p = (.ok r, q)) :
    b.Framed settings "DO" r := by
  obtain ⟨v, p₁, -, h⟩ := run_bind_eq_ok_iff.1 h
  obtain ⟨list, p₂, -, h⟩ := run_bind_eq_ok_iff.1 h
  obtain ⟨body, p₃, hbody, h⟩ := run_bind_eq_ok_iff.1 h
  extract_lets loop at h
  -- with or without a variable for the list, the loop over it comes next
  have hloop : ∀ list {p}, (loop list).run settings p = (.ok r, q) → b.Framed settings "DO" r := by
    intro list p h
    obtain ⟨indexVar, p₄, -, h⟩ := run_bind_eq_ok_iff.1 h
    obtain ⟨indent, p₅, -, h⟩ := run_bind_eq_ok_iff.1 h
    obtain ⟨rfl, -⟩ := run_pure_eq_ok_iff.1 h
    exact ⟨_, rfl, frames_loopBody hbody (endsLine_append _ (by decide)) _⟩
  split at h
  · obtain ⟨list, p₄, -, h⟩ := run_bind_eq_ok_iff.1 h
    exact hloop list h
  · obtain ⟨name, p₄, -, h⟩ := run_bind_eq_ok_iff.1 h
    obtain ⟨list, p₅, -, h⟩ := run_bind_eq_ok_iff.1 h
    exact hloop list h

theorem framed_repeatWhile (h : (repeatWhile (b.site standard)).run settings p = (.ok r, q)) :
    b.Framed settings "BODY" r := by
  obtain ⟨condition, p₁, -, h⟩ := run_bind_eq_ok_iff.1 h
  obtain ⟨body, p₂, hbody, h⟩ := run_bind_eq_ok_iff.1 h
  obtain ⟨rfl, -⟩ := run_pure_eq_ok_iff.1 h
  rw [String.append_assoc, String.append_assoc]
  exact ⟨_, rfl, frames_loopBody hbody (by decide) _⟩

/-! ## Branches -/

theorem framed_branch {n : Nat} (h : (controlsIf (b.site standard)).run settings p = (.ok r, q)) (hn : b.Branches n) :
    b.Framed settings ("DO" ++ Text.ofNat n) r := by
  obtain ⟨codes, p₁, hcodes, hlast⟩ := run_bind_eq_ok_iff.1 h
  obtain ⟨branchCode, p₂, q₂, hmem, hbranch⟩ :=
    (run_mapM_eq_ok_iff.1 hcodes).getElem (List.getElem?_range (lt_branchCount_iff.2 hn))
  obtain ⟨branch, ⟨p₃, -, hbody⟩, rfl⟩ := exists_branch hbranch
  obtain ⟨before, after, hjoin⟩ := exists_joinWith " else " (List.mem_of_getElem? hmem)
  -- the else branch, or the line feed, comes behind all of them
  have hrest : ∃ rest, r = .statement (joinWith " else " codes ++ rest) := by
    dsimp only at hlast
    split at hlast
    · obtain ⟨body, p₄, -, hlast⟩ := run_bind_eq_ok_iff.1 hlast
      obtain ⟨rfl, -⟩ := run_pure_eq_ok_iff.1 hlast
      exact ⟨" else \x7b\n" ++ body ++ "\x7d\n", by simp only [String.append_assoc]⟩
    · obtain ⟨rfl, -⟩ := run_pure_eq_ok_iff.1 hlast
      exact ⟨"\n", rfl⟩
  obtain ⟨rest, rfl⟩ := hrest
  refine ⟨_, rfl, before ++ ("if (" ++ inPlace Order.none "false" branch.1 ++ ") \x7b\n"), "", branch.2,
    "\x7d" ++ after ++ rest, p₃, q₂, ?_, endsLine_append _ (endsLine_append _ (by decide)), .nothing, hbody⟩
  rw [hjoin, Branch.code]
  simp only [String.append_assoc, String.empty_append]

theorem framed_else {c : Block} (h : (controlsIf (b.site standard)).run settings p = (.ok r, q))
    (hplugged : b.plugged? "ELSE" = some c) : b.Framed settings "ELSE" r := by
  obtain ⟨codes, p₁, -, hlast⟩ := run_bind_eq_ok_iff.1 h
  have hsocket : (b.site standard).hasSocket "ELSE" = true := by
    obtain ⟨s, hs, -⟩ := Option.bind_eq_some_iff.1 hplugged
    exact Option.isSome_iff_exists.2 ⟨s, hs⟩
  have helse : hasElse (b.site standard) = true := by simp [hasElse, hsocket]
  dsimp only at hlast
  rw [if_pos helse] at hlast
  obtain ⟨read, p₂, hread, hlast⟩ := run_bind_eq_ok_iff.1 hlast
  obtain ⟨rfl, -⟩ := run_pure_eq_ok_iff.1 hlast
  obtain ⟨body, hbody, rfl⟩ := Block.exists_body hread
  exact ⟨_, rfl, joinWith " else " codes ++ " else \x7b\n", "", body, "\x7d\n", p₁, p₂, by rw [String.empty_append],
    endsLine_append _ (by decide), .nothing, hbody⟩

/-! ## All kinds -/

/-- The kinds that read sockets for statements. -/
theorem statements_cases {k : KindSockets} (hk : k ∈ KindSockets.standard) :
    k.statements = [] ∨
    (k.kind = "controls_if" ∨ k.kind = "controls_ifelse") ∧ k.statements = [.numbered "DO", .named "ELSE"] ∨
    k.kind ∈ ["controls_repeat_ext", "controls_repeat", "controls_whileUntil", "controls_for", "controls_forEach"] ∧
      k.statements = [.named "DO"] ∨
    k.kind = "repeat_while" ∧ k.statements = [.named "BODY"] ∨
    (k.kind = "procedures_defreturn" ∨ k.kind = "procedures_defnoreturn") ∧ k.statements = [.named "STACK"] := by
  revert k
  decide +kernel

/-- A block that is no definition writes the statements of its sockets in place. -/
theorem framed_of_writes {emitter : Emitter} {c : Block} (hfound : standard.lookup b.head.kind = some emitter)
    (hplaced : b.head.isDefinition = false) (hwrites : b.Writes socket) (hplugged : b.plugged? socket = some c)
    (h : (emitter (b.site standard)).run settings p = (.ok r, q)) : b.Framed settings socket r := by
  obtain ⟨k, hk, hkind, ⟨name, hname, hfits⟩, hreached⟩ := hwrites
  have hemitter : ∀ kind e, b.head.kind = kind → standard.lookup kind = some e → emitter = e := by
    rintro kind e rfl he
    exact Option.some.inj (hfound.symm.trans he)
  rcases statements_cases hk with hnone | ⟨hif, hnames⟩ | ⟨hloop, hnames⟩ | ⟨hwhile, hnames⟩ | ⟨hdefinition, -⟩
  · rw [hnone] at hname
    cases hname
  · have hcontrols : emitter = controlsIf := by
      rcases hif with hif | hif <;> exact hemitter _ _ (hkind.symm.trans hif) rfl
    subst hcontrols
    rw [hnames, List.mem_cons, List.mem_singleton] at hname
    rcases hname with rfl | rfl
    · obtain ⟨n, rfl⟩ := hfits
      exact framed_branch h (hreached n rfl)
    · obtain rfl : socket = "ELSE" := hfits
      exact framed_else h hplugged
  · rw [hnames, List.mem_singleton] at hname
    subst hname
    obtain rfl : socket = "DO" := hfits
    simp only [List.mem_cons, List.not_mem_nil, or_false] at hloop
    rcases hloop with hloop | hloop | hloop | hloop | hloop
    · obtain rfl := hemitter _ _ (hkind.symm.trans hloop) rfl
      exact framed_controlsRepeat h
    · obtain rfl := hemitter _ _ (hkind.symm.trans hloop) rfl
      exact framed_controlsRepeat h
    · obtain rfl := hemitter _ _ (hkind.symm.trans hloop) rfl
      exact framed_controlsWhileUntil h
    · obtain rfl := hemitter _ _ (hkind.symm.trans hloop) rfl
      exact framed_controlsFor h
    · obtain rfl := hemitter _ _ (hkind.symm.trans hloop) rfl
      exact framed_controlsForEach h
  · rw [hnames, List.mem_singleton] at hname
    subst hname
    obtain rfl : socket = "BODY" := hfits
    obtain rfl := hemitter _ _ (hkind.symm.trans hwhile) rfl
    exact framed_repeatWhile h
  · rw [hkind] at hdefinition
    rcases hdefinition with hdefinition | hdefinition <;> simp [Head.isDefinition, hdefinition] at hplaced

theorem lookup_of_isDefinition {h : Head} (hdefinition : h.isDefinition = true) :
    standard.lookup h.kind = some proceduresDef := by
  simp only [Head.isDefinition, Bool.or_eq_true, beq_iff_eq] at hdefinition
  rcases hdefinition with hkind | hkind <;> rw [hkind] <;> rfl

/-- A definition is put in front of the program. The statements of the procedure stand in it as they would in place,
and what is chained behind the block comes behind its brace. -/
theorem exists_definition (h : (proceduresDef (b.site standard)).run settings p = (.ok r, q)) :
    r = .handled ∧ ∃ fn rest next p₁ p₂,
      q.definitions.lookup (.ofString ("%" ++ fn)) =
        some (commentLines b ++ "function " ++ fn ++ "(" ++ rest ++ ("\x7d" ++ next)) ∧
      b.Frames settings "STACK" (commentLines b ++ "function " ++ fn ++ "(" ++ rest) ∧
      (b.site standard).nextCode.run settings p₁ = (.ok next, p₂) := by
  obtain ⟨fn, p₁, -, h⟩ := run_bind_eq_ok_iff.1 h
  obtain ⟨body, p₂, hbody, h⟩ := run_bind_eq_ok_iff.1 h
  obtain ⟨result, p₃, -, h⟩ := run_bind_eq_ok_iff.1 h
  extract_lets definition at h
  -- with or without a result, the names of the parameters come next
  have hdefinition : ∀ last {p}, (definition last).run settings p = (.ok r, q) → r = .handled ∧ ∃ rest next p₁ p₂,
      q.definitions.lookup (.ofString ("%" ++ fn)) =
        some (commentLines b ++ "function " ++ fn ++ "(" ++ rest ++ ("\x7d" ++ next)) ∧
      b.Frames settings "STACK" (commentLines b ++ "function " ++ fn ++ "(" ++ rest) ∧
      (b.site standard).nextCode.run settings p₁ = (.ok next, p₂) := by
    intro last p h
    obtain ⟨params, p₄, -, h⟩ := run_bind_eq_ok_iff.1 h
    obtain ⟨code, p₅, hdress, h⟩ := run_bind_eq_ok_iff.1 h
    obtain ⟨u, p₆, hdefine, h⟩ := run_bind_eq_ok_iff.1 h
    obtain ⟨rfl, rfl⟩ := run_pure_eq_ok_iff.1 h
    rw [Site.dress, if_neg Bool.false_ne_true] at hdress
    obtain ⟨next, p₇, hnext, hdress⟩ := run_bind_eq_ok_iff.1 hdress
    obtain ⟨rfl, rfl⟩ := run_pure_eq_ok_iff.1 hdress
    refine ⟨rfl, joinWith ", " params ++ ") \x7b\n" ++ body ++ last, next, p₄, p₅, ?_, ?_, hnext⟩
    · cases hdefine
      dsimp only
      rw [RawText.ofString_append, Pass.setDefinition_eq, Entries.lookup_put, if_pos rfl]
      simp only [String.append_assoc]
      rfl
    · have hfront : endsLine (commentLines b ++ "function " ++ fn ++ "(" ++ joinWith ", " params ++ ") \x7b\n") :=
        endsLine_append _ (by decide)
      simpa only [String.append_assoc] using frames_loopBody hbody hfront last
  split at h
  · obtain ⟨last, p₄, -, h⟩ := run_bind_eq_ok_iff.1 h
    exact (hdefinition last h).imp_right fun h => ⟨fn, h⟩
  · obtain ⟨indent, p₄, -, h⟩ := run_bind_eq_ok_iff.1 h
    obtain ⟨last, p₅, -, h⟩ := run_bind_eq_ok_iff.1 h
    exact (hdefinition last h).imp_right fun h => ⟨fn, h⟩

end Emit

/-! ## A block and what is chained behind it -/

namespace Block

/-- Code behind a block is that of what is chained to it, which gives no value. -/
theorem exists_next {n : Block} (hnext : b.next = some n)
    (h : (b.site standard).nextCode.run settings p = (.ok code, q)) :
    ∃ r, (n.emit standard false).run settings p = (.ok r, q) ∧ (∀ code order, r ≠ .value code order) ∧
      code = r.code := by
  obtain ⟨head, sockets, next⟩ := b
  obtain rfl : next = some n := hnext
  obtain ⟨r, p', hr, h⟩ := run_bind_eq_ok_iff.1 h
  cases r with
  | handled =>
    obtain ⟨rfl, rfl⟩ := run_pure_eq_ok_iff.1 h
    exact ⟨.handled, hr, by simp, rfl⟩
  | statement next =>
    obtain ⟨rfl, rfl⟩ := run_pure_eq_ok_iff.1 h
    exact ⟨.statement code, hr, by simp, rfl⟩
  | value next order => cases h

/-- A block that is no definition writes its comments, its own code and what is chained behind it. Its own code is
a value, or statements that end their line. -/
theorem exists_own (henabled : b.head.disabled = false) (hplaced : b.head.isDefinition = false)
    (h : (b.emit standard false).run settings p = (.ok r, q)) :
    ∃ emitter own next p₁, standard.lookup b.head.kind = some emitter ∧
      (emitter (b.site standard)).run settings p = (.ok own, p₁) ∧
      (b.emit standard true).run settings p = (.ok ((b.site standard).commented own), p₁) ∧
      (b.site standard).nextCode.run settings p₁ = (.ok next, q) ∧
      ((∃ code, own = .statement code ∧ endsLine code = true ∧ r = .statement (commentLines b ++ code ++ next)) ∨
        ∃ code order, own = .value code order ∧ r = .value (commentLines b ++ code ++ next) order) := by
  rw [emit_of_enabled henabled, Site.emit_false_eq] at h
  obtain ⟨r₁, p₁, hown, hfollowed⟩ := run_bind_eq_ok_iff.1 h
  rw [emit_of_enabled henabled]
  obtain ⟨emitter, own, hfound, hemitter, rfl, -⟩ := Site.exists_of_run_emit hown
  obtain ⟨hreturn, hnoReturn⟩ : b.head.kind ≠ "procedures_defreturn" ∧ b.head.kind ≠ "procedures_defnoreturn" := by
    simpa [Head.isDefinition] using hplaced
  rcases lined_of_lookup hfound hreturn hnoReturn _ _ _ _ _ hemitter with ⟨code, order, rfl⟩ | ⟨code, rfl, hends⟩
  · obtain ⟨next, p₂, hnext, hpure⟩ := run_bind_eq_ok_iff.1 hfollowed
    obtain ⟨rfl, rfl⟩ := run_pure_eq_ok_iff.1 hpure
    exact ⟨emitter, _, next, p₁, hfound, hemitter, hown, hnext, .inr ⟨code, order, rfl, rfl⟩⟩
  · obtain ⟨next, p₂, hnext, hpure⟩ := run_bind_eq_ok_iff.1 hfollowed
    obtain ⟨rfl, rfl⟩ := run_pure_eq_ok_iff.1 hpure
    exact ⟨emitter, _, next, p₁, hfound, hemitter, hown, hnext, .inl ⟨code, rfl, hends, rfl⟩⟩

end Block

/-! ## Statements in statements -/

/-- What may stand in front of a statement on its first line, behind the indents: nothing, or a loop trap that does
not end its line, with the indent of the body behind it. -/
inductive PassSettings.InFront (settings : PassSettings) : Nat → String → Prop
  | nothing (depth : Nat) : InFront settings depth ""
  | trap (depth : Nat) (id : String) (set : settings.loopTrap ≠ "") (unended : endsLine (settings.trap id) = false) :
    InFront settings (depth + 1) (settings.trap id ++ settings.indent)

namespace Block

/-- The block is written in place with the block `b` and what is chained behind it, inside so many sockets for
statements. It is itself not disabled and no definition, and neither are the blocks around it, which write the
sockets that lead to it. A disabled block is passed over, but a definition takes along what is chained behind it. -/
inductive Nested (c : Block) : Nat → Block → Prop
  | here (enabled : c.head.disabled = false) (placed : c.head.isDefinition = false) : Nested c 0 c
  | behind {depth : Nat} {b n : Block} (next : b.next = some n)
    (passed : b.head.disabled = true ∨ b.head.isDefinition = false) (nested : Nested c depth n) : Nested c depth b
  | inside {depth : Nat} {b e : Block} {socket : String} (enabled : b.head.disabled = false)
    (placed : b.head.isDefinition = false) (writes : b.Writes socket) (plugged : b.plugged? socket = some e)
    (nested : Nested c depth e) : Nested c (depth + 1) b

/-- The lines that the block gives by itself are lines of the text, one below the other, each behind so many
indents. -/
def WrittenIn (settings : PassSettings) (c : Block) (depth : Nat) (text : String) : Prop :=
  ∃ lead p own q, settings.InFront depth lead ∧ (c.emit standard true).run settings p = (.ok (.statement own), q) ∧
    (lines (lead ++ own)).map (repeated depth settings.indent ++ ·) <:+: lines text

/-- The text holds lines at a depth, from the start of a line on and in a socket below another line. -/
def Carries (settings : PassSettings) (own : String) : Nat → String → Prop
  | 0, text => Stands own text
  | depth + 1, text => ∃ lead, settings.InFront (depth + 1) lead ∧
    StandsBelow (prefixLines (lead ++ own) (repeated (depth + 1) settings.indent)) text

namespace Carries

variable {own text body front opening : String} {depth : Nat}

theorem behind (h : Carries settings own depth text) (hfront : endsLine front = true) :
    Carries settings own depth (front ++ text) := by
  cases depth with
  | zero =>
    obtain ⟨before, after, htext, hbefore⟩ := Stands.behind h hfront
    exact ⟨before, after, htext, whole_of_endsLine hbefore⟩
  | succ depth =>
    obtain ⟨lead, hlead, hbelow⟩ := h
    exact ⟨lead, hlead, hbelow.behind front⟩

theorem append (h : Carries settings own depth text) (rest : String) : Carries settings own depth (text ++ rest) := by
  cases depth with
  | zero => exact Stands.append h rest
  | succ depth =>
    obtain ⟨lead, hlead, hbelow⟩ := h
    exact ⟨lead, hlead, hbelow.append rest⟩

theorem ne_empty (h : Carries settings own depth text) (hown : endsLine own = true) : text ≠ "" := by
  rintro rfl
  have hpart : ∀ {part}, endsLine part = true → ¬ Stands part "" := by
    rintro part hpart ⟨before, after, hempty, -⟩
    have hboth := String.append_eq_empty_iff.1 hempty.symm
    exact ne_empty_of_endsLine hpart (String.append_eq_empty_iff.1 hboth.1).2
  cases depth with
  | zero => exact hpart hown h
  | succ depth =>
    obtain ⟨lead, -, hbelow⟩ := h
    exact hpart (endsLine_prefixLines (endsLine_append lead hown) _) hbelow.stands

/-- In a socket, lines stand one level deeper. The first statement of a body may get the loop trap on its first line;
one further inside never does, for it is below another line. -/
theorem framed (hindent : Unbroken settings.indent) (hown : endsLine own = true) (h : Carries settings own depth body)
    (hfront : endsLine front = true) (hopening : settings.Opening opening) (back : String) :
    Carries settings own (depth + 1) (front ++ (opening ++ deeper settings body) ++ back) := by
  rw [deeper, if_neg (h.ne_empty hown)]
  have hdeeper : ∀ {part}, endsLine part = true → StandsBelow part body →
      StandsBelow (prefixLines part settings.indent) (front ++ (opening ++ prefixLines body settings.indent) ++ back) :=
    fun hpart hbelow => (((hbelow.prefixLines hpart _).behind opening).behind front).append back
  cases depth with
  | zero =>
    have hone : repeated 1 settings.indent = settings.indent := String.append_empty
    rcases Stands.cases h with ⟨after, rfl⟩ | hbelow
    · obtain ⟨after', hafter⟩ := exists_prefixLines_append hown after settings.indent
      rw [hafter]
      rcases hopening with _ | ⟨id, hset⟩
      · refine ⟨"", .nothing 1, front, after' ++ back, ?_, hfront⟩
        simp only [hone, String.empty_append, String.append_assoc]
      · cases hends : endsLine (settings.trap id) with
        | true =>
          refine ⟨"", .nothing 1, front ++ prefixLines (settings.trap id) settings.indent, after' ++ back, ?_,
            endsLine_append _ (endsLine_prefixLines hends _)⟩
          simp only [hone, String.empty_append, String.append_assoc]
        | false =>
          refine ⟨_, .trap 0 id hset hends, front, after' ++ back, ?_, hfront⟩
          rw [hone, @String.append_assoc (settings.trap id),
            prefixLines_append_of_not_endsLine hindent hends (ne_empty_of_endsLine hown)]
          simp only [String.append_assoc]
    · refine ⟨"", .nothing 1, ?_⟩
      rw [hone, String.empty_append]
      exact hdeeper hown hbelow
  | succ depth =>
    obtain ⟨lead, hlead, hbelow⟩ := h
    have hends := endsLine_prefixLines (endsLine_append lead hown) (repeated (depth + 1) settings.indent)
    have hbelow' := hdeeper hends hbelow
    rw [prefixLines_prefixLines (unbroken_repeated hindent _)] at hbelow'
    cases hlead with
    | nothing => exact ⟨"", .nothing _, hbelow'⟩
    | trap depth id hset hunended => exact ⟨_, .trap _ id hset hunended, hbelow'⟩

end Carries

/-- Some emission of the block by itself has given lines that the text holds at a depth. -/
def CarriedIn (settings : PassSettings) (c : Block) (depth : Nat) (text : String) : Prop :=
  ∃ p own q, (c.emit standard true).run settings p = (.ok (.statement own), q) ∧ endsLine own = true ∧
    Carries settings own depth text

/-- The code of a result holds the lines at a depth. If it is a value, then they are in what is chained behind it. -/
def CarriedBy (settings : PassSettings) (c : Block) (depth : Nat) (r : Result) : Prop :=
  ∃ front code, r.code = front ++ code ∧ ((∀ code order, r ≠ .value code order) → front = "") ∧
    c.CarriedIn settings depth code

theorem CarriedBy.carriedIn {c : Block} {depth : Nat} (h : c.CarriedBy settings depth r)
    (hr : ∀ code order, r ≠ .value code order) : c.CarriedIn settings depth r.code := by
  obtain ⟨front, code, hcode, hfront, hcarried⟩ := h
  rwa [hcode, hfront hr, String.empty_append]

theorem CarriedIn.carriedBy {c : Block} {depth : Nat} (h : c.CarriedIn settings depth code) :
    c.CarriedBy settings depth (.statement code) :=
  ⟨"", code, String.empty_append.symm, fun _ => rfl, h⟩

/-- The socket that holds a block brings its lines one level deeper into the code around. -/
theorem Frames.carriedIn (hindent : Unbroken settings.indent) {c e : Block} {depth : Nat}
    (h : b.Frames settings socket code) (hplugged : b.plugged? socket = some e)
    (he : ∀ p r q, (e.emit standard false).run settings p = (.ok r, q) → c.CarriedBy settings depth r) :
    c.CarriedIn settings (depth + 1) code := by
  obtain ⟨front, opening, body, back, p₁, p₂, rfl, hfront, hopening, hbody⟩ := h
  have hcarried : c.CarriedIn settings depth body := by
    cases hbody with
    | code hplugged' hrun =>
      obtain rfl := Option.some.inj (hplugged.symm.trans hplugged')
      exact (he _ _ _ hrun).carriedIn (by simp)
    | handled hplugged' hrun =>
      obtain rfl := Option.some.inj (hplugged.symm.trans hplugged')
      exact (he _ _ _ hrun).carriedIn (by simp)
    | noBlock hnone =>
      rw [hplugged] at hnone
      cases hnone
  obtain ⟨p, own, q, hown, hends, hcarries⟩ := hcarried
  exact ⟨p, own, q, hown, hends, hcarries.framed hindent hends hfront hopening back⟩

/-- The result of a block holds the lines of each statement that is written in place with it. -/
theorem Nested.carriedBy (hindent : Unbroken settings.indent) {c : Block} {depth : Nat} (hnested : c.Nested depth b)
    (hc : ¬ c.EmitsValue settings) (h : (b.emit standard false).run settings p = (.ok r, q)) :
    c.CarriedBy settings depth r := by
  induction hnested generalizing p r q with
  | here henabled hplaced =>
    obtain ⟨emitter, own, next, p₁, -, -, hown, -, ⟨code, rfl, hends, rfl⟩ | ⟨code, order, rfl, -⟩⟩ :=
      exists_own henabled hplaced h
    · exact CarriedIn.carriedBy ⟨p, _, p₁, hown, endsLine_append _ hends, stands_self _ next⟩
    · exact absurd ⟨henabled, p, _, order, p₁, hown⟩ hc
  | @behind depth b n hnext hpassed hnested ih =>
    cases hdisabled : b.head.disabled with
    | true =>
      rw [emit_eq, if_pos hdisabled, if_neg Bool.false_ne_true, hnext] at h
      exact ih h
    | false =>
      have hplaced := hpassed.resolve_left (by simp [hdisabled])
      obtain ⟨emitter, own, next, p₁, -, -, -, hrest, hr⟩ := exists_own hdisabled hplaced h
      obtain ⟨r', hrun, hr', rfl⟩ := exists_next hnext hrest
      have hcarried := (ih hrun).carriedIn hr'
      obtain ⟨code, -, hends, rfl⟩ | ⟨code, order, -, rfl⟩ := hr
      · obtain ⟨p', own', q', hown', hends', hcarries⟩ := hcarried
        exact CarriedIn.carriedBy ⟨p', own', q', hown', hends', hcarries.behind (endsLine_append _ hends)⟩
      · exact ⟨commentLines b ++ code, r'.code, rfl, fun hvalue => absurd rfl (hvalue _ _), hcarried⟩
  | @inside depth b e socket henabled hplaced hwrites hplugged hnested ih =>
    obtain ⟨emitter, own, next, p₁, hfound, hemitter, -, -, hr⟩ := exists_own henabled hplaced h
    obtain ⟨code, rfl, hframes⟩ := framed_of_writes hfound hplaced hwrites hplugged hemitter
    obtain ⟨code', hcode, -, rfl⟩ | ⟨code', order, hcode, -⟩ := hr
    · obtain rfl := Result.statement.inj hcode
      obtain ⟨p', own', q', hown', hends', lead, hlead, hbelow⟩ := hframes.carriedIn hindent hplugged fun _ _ _ => ih
      exact CarriedIn.carriedBy ⟨p', own', q', hown', hends', lead, hlead, (hbelow.behind _).append next⟩
    · cases hcode

/-- What a text holds at a depth are lines of it, each behind so many indents. -/
theorem CarriedIn.writtenIn (hindent : Unbroken settings.indent) {c : Block} {depth : Nat} {text : String}
    (h : c.CarriedIn settings depth text) : c.WrittenIn settings depth text := by
  obtain ⟨p, own, q, hown, hends, hcarries⟩ := h
  cases depth with
  | zero =>
    refine ⟨"", p, own, q, .nothing 0, hown, ?_⟩
    have hzero : (repeated 0 settings.indent ++ ·) = id := funext fun line => String.empty_append
    rw [hzero, List.map_id, String.empty_append]
    exact Stands.lines_infix hcarries hends
  | succ depth =>
    obtain ⟨lead, hlead, hbelow⟩ := hcarries
    refine ⟨lead, p, own, q, hlead, hown, ?_⟩
    rw [← lines_prefixLines (unbroken_repeated hindent _)]
    exact hbelow.stands.lines_infix (endsLine_prefixLines (endsLine_append lead hends) _)

end Block

/-- Indentation composes. A prefix goes through a text that goes on behind a line feed, two prefixes are one, and a
prefix without a line feed adds none and can be taken away again. So, for an indentation without a line feed, the
lines of a statement carry one indent for each socket for statements that it is in. The sockets count up to the
block whose code goes to the top, or to the definition of a procedure, whose code goes in front of the program and
has the statements that are chained behind the definition after its brace. A loop trap that does not end its
line stands on the first line of the statement behind it, after the indents. -/
theorem indentation_composes :
    (∀ a b lead, endsLine a = true → b ≠ "" → prefixLines (a ++ b) lead = prefixLines a lead ++ prefixLines b lead) ∧
    (∀ text inner outer, Unbroken inner →
      prefixLines (prefixLines text inner) outer = prefixLines text (outer ++ inner)) ∧
    (∀ text lead, Unbroken lead → (prefixLines text lead).toList.count '\n' = text.toList.count '\n' ∧
      unprefixLines? (prefixLines text lead) lead = some text) ∧
    ∀ (settings : PassSettings) (b c : Block) (depth : Nat) (p : Pass) (r : Result) (q : Pass),
      Unbroken settings.indent → ¬ c.EmitsValue settings → (b.emit standard false).run settings p = (.ok r, q) →
      (c.Nested depth b → ∃ front code, r.code = front ++ code ∧ ((∀ code order, r ≠ .value code order) → front = "") ∧
        c.WrittenIn settings depth code) ∧
      (b.head.disabled = false → b.head.isDefinition = true → ∃ fn rest next,
        q.definitions.lookup (.ofString ("%" ++ fn)) =
          some (commentLines b ++ "function " ++ fn ++ "(" ++ rest ++ ("\x7d" ++ next)) ∧
        (∀ e, b.plugged? "STACK" = some e → c.Nested depth e →
          c.WrittenIn settings (depth + 1) (commentLines b ++ "function " ++ fn ++ "(" ++ rest)) ∧
        ∀ n, b.next = some n → c.Nested depth n → c.WrittenIn settings depth next) := by
  refine ⟨fun a b lead ha hb => prefixLines_append ha hb lead,
    fun text inner outer h => prefixLines_prefixLines h text outer,
    fun text lead h => ⟨count_prefixLines h text, unprefixLines?_prefixLines h text⟩, ?_⟩
  intro settings b c depth p r q hindent hc h
  refine ⟨fun hnested => ?_, fun henabled hdefinition => ?_⟩
  · obtain ⟨front, code, hcode, hfront, hcarried⟩ := hnested.carriedBy hindent hc h
    exact ⟨front, code, hcode, hfront, hcarried.writtenIn hindent⟩
  · rw [Block.emit_of_enabled henabled] at h
    obtain ⟨emitter, own, p', hfound, hown, hcompleted⟩ := Site.exists_of_run_emit_completed h
    obtain rfl := Option.some.inj (hfound.symm.trans (lookup_of_isDefinition hdefinition))
    obtain ⟨rfl, fn, rest, next, p₁, p₂, htext, hframes, hnext⟩ := exists_definition hown
    obtain ⟨rfl, rfl⟩ := run_pure_eq_ok_iff.1 hcompleted
    refine ⟨fn, rest, next, htext, fun e hplugged hnested => ?_, fun n hchained hnested => ?_⟩
    · exact (hframes.carriedIn hindent hplugged fun _ _ _ => hnested.carriedBy hindent hc).writtenIn hindent
    · obtain ⟨r, hrun, hr, rfl⟩ := Block.exists_next hchained hnext
      exact ((hnested.carriedBy hindent hc hrun).carriedIn hr).writtenIn hindent


/-! ## Alerts at depths -/

/-- An if block with a block in its branch. -/
def ifAround (inner : Block) : Block := ⟨{ kind := "controls_if" }, [⟨"DO0", .statement, some inner⟩], none⟩

/-- A loop with a block in its body. -/
def loopAround (inner : Block) : Block := ⟨{ kind := "repeat_while" }, [⟨"BODY", .statement, some inner⟩], none⟩

/-- A procedure with a block in its body. -/
def procedureAround (inner : Block) : Block :=
  ⟨{ kind := "procedures_defnoreturn", fields := [⟨"NAME", .ofString "f0", false⟩] },
    [⟨"STACK", .statement, some inner⟩], none⟩

theorem not_emitsValue_alert (settings : PassSettings) : ¬ alert.EmitsValue settings := by
  rintro ⟨-, p, code, order, q, h⟩
  rw [Block.emit_of_enabled rfl] at h
  obtain ⟨emitter, own, hfound, hown, hvalue, -⟩ := Site.exists_of_run_emit h
  obtain rfl : textPrint = emitter := Option.some.inj hfound
  obtain ⟨text, p', -, hpure⟩ := run_bind_eq_ok_iff.1 hown
  obtain ⟨rfl, -⟩ := run_pure_eq_ok_iff.1 hpure
  cases hvalue

theorem writes_ifAround (inner : Block) : (ifAround inner).Writes "DO0" := by
  refine ⟨_, List.mem_append_left _ (List.mem_append_left _ (List.mem_append_left _ (List.mem_append_left _
    (List.mem_append_left _ (List.mem_append_left _ List.mem_cons_self))))), rfl, ⟨.numbered "DO", by decide, 0, rfl⟩,
    fun n hn m hm => .inl ?_⟩
  have hfirst : "DO0" = "DO" ++ Text.ofNat 0 := by decide
  rw [hfirst, String.append_right_inj] at hn
  have := ofNat_injective hn
  omega

theorem nested_ifAround {c inner : Block} {depth : Nat} (h : c.Nested depth inner) :
    c.Nested (depth + 1) (ifAround inner) :=
  .inside rfl rfl (writes_ifAround inner) rfl h

/-- Two sockets deep, an alert carries two indents, and what is put below another text, indented again or taken out of
its indents stays as it was. -/
theorem alert_twice_indented :
    prefixLines ("f();\n" ++ "g();") "  " = "  f();\n" ++ "  g();" ∧
    prefixLines (prefixLines "f();\n\ng();\n" "  ") "\n" = prefixLines "f();\n\ng();\n" "\n  " ∧
    unprefixLines? (prefixLines "f();\n\ng();\n" "  ") "  " = some "f();\n\ng();\n" ∧
    ((ifAround (ifAround alert)).emit standard false).run {} { names := {} } =
      (.ok (.statement "if (false) \x7b\n  if (false) \x7b\n    window.alert('');\n  \x7d\n\x7d\n"), { names := {} }) ∧
    ∃ front code, "if (false) \x7b\n  if (false) \x7b\n    window.alert('');\n  \x7d\n\x7d\n" = front ++ code ∧
      front = "" ∧ alert.WrittenIn {} 2 code := by
  obtain ⟨happend, hcompose, hkeep, hdepth⟩ := indentation_composes
  have hrun : ((ifAround (ifAround alert)).emit standard false).run {} { names := {} } =
      (.ok (.statement "if (false) \x7b\n  if (false) \x7b\n    window.alert('');\n  \x7d\n\x7d\n"), { names := {} }) :=
    rfl
  have hnested : alert.Nested 2 (ifAround (ifAround alert)) := nested_ifAround (nested_ifAround (.here rfl rfl))
  obtain ⟨front, code, hcode, hfront, hwritten⟩ :=
    (hdepth {} _ alert 2 _ _ _ (by decide) (not_emitsValue_alert _) hrun).1 hnested
  exact ⟨happend "f();\n" "g();" "  " (by decide) (by decide), hcompose _ "  " "\n" (by decide),
    (hkeep "f();\n\ng();\n" "  " (by decide)).2, hrun, front, code, hcode, hfront (by simp), hwritten⟩

/-- The pass that has defined the procedure. -/
def definingPass (n : Names) : Pass :=
  { names := n, definitions := [(.ofString "%" ++ .ofString "f0", "function f0() \x7b\n  window.alert('');\n\x7d")] }

theorem run_procedureAround {n n' : Names} (hname : (n.get "f0" .procedure).1 = "f0")
    (hrest : (n.get "f0" .procedure).2 = n') (hclean : n'.failure = none) :
    ((ifAround (procedureAround alert)).emit standard false).run {} { names := n } =
      (.ok (.statement "if (false) \x7b\n\x7d\n"), definingPass n') := by
  obtain ⟨reserved, known, used, ids, failure⟩ := n'
  obtain rfl : failure = none := hclean
  have hasked : (procedureName (((procedureAround alert).site standard).head.written "NAME")).run {} { names := n } =
      (.ok "f0", { names := ⟨reserved, known, used, ids, none⟩ }) := by
    show (Except.ok (n.get "f0" .procedure).1, ({ names := (n.get "f0" .procedure).2 } : Pass)) = _
    rw [hname, hrest]
  have hdefine : (proceduresDef ((procedureAround alert).site standard)).run {} { names := n } =
      (.ok .handled, definingPass ⟨reserved, known, used, ids, none⟩) := (run_bind_of_ok hasked).trans rfl
  have hprocedure : ((procedureAround alert).emit standard false).run {} { names := n } =
      (.ok .handled, definingPass ⟨reserved, known, used, ids, none⟩) := by
    rw [Block.emit_of_enabled rfl, Site.emit_standard]
    exact (run_bind_of_ok (Site.run_bare rfl hdefine rfl)).trans rfl
  have hbody : (((ifAround (procedureAround alert)).site standard).statements "DO0").run {} { names := n } =
      (.ok "", definingPass ⟨reserved, known, used, ids, none⟩) := (run_bind_of_ok hprocedure).trans rfl
  have hbranch : (ifBranch ((ifAround (procedureAround alert)).site standard) 0).run {} { names := n } =
      (.ok "if (false) \x7b\n\x7d", definingPass ⟨reserved, known, used, ids, none⟩) :=
    run_bind_eq_ok_iff.2 ⟨"false", _, rfl, (run_bind_of_ok hbody).trans rfl⟩
  have hown : (controlsIf ((ifAround (procedureAround alert)).site standard)).run {} { names := n } =
      (.ok (.statement "if (false) \x7b\n\x7d\n"), definingPass ⟨reserved, known, used, ids, none⟩) :=
    (run_bind_of_ok (run_mapM_eq_ok_iff.2 (.cons hbranch .nil))).trans rfl
  rw [Block.emit_of_enabled rfl, Site.emit_false_eq]
  exact (run_bind_of_ok (Site.run_emit_of_statement rfl hown rfl)).trans rfl

/-- The lines of an alert do not carry an indent for each socket that it is in when it is in a procedure that is plugged
into a branch, when the indentation has a line feed, or when a loop trap shares their first line. -/
theorem alert_indented_otherwise :
    (∃ p q, ((ifAround (procedureAround alert)).emit standard false).run {} p =
        (.ok (.statement "if (false) \x7b\n\x7d\n"), q) ∧
      q.definitions.lookup (.ofString "%f0") = some "function f0() \x7b\n  window.alert('');\n\x7d" ∧
      ∀ text ∈ ["if (false) \x7b\n\x7d\n", "function f0() \x7b\n  window.alert('');\n\x7d"],
        ¬ (lines "window.alert('');\n").map (repeated 2 "  " ++ ·) <:+: lines text) ∧
    (alert.Nested 2 (ifAround (ifAround alert)) ∧
      ((ifAround (ifAround alert)).emit standard false).run { indent := "\n" } { names := {} } =
        (.ok (.statement ("if (false) \x7b\n" ++ "\n" ++ "if (false) \x7b\n" ++ repeated 3 "\n" ++
          "window.alert('');\n" ++ repeated 1 "\n" ++ "\x7d\n" ++ "\x7d\n")), { names := {} })) ∧
    ((loopAround alert).emit standard false).run { loopTrap := "trap();" } { names := {} } =
        (.ok (.statement "do \x7b\n  trap();  window.alert('');\n\x7d while (false);\n"), { names := {} }) ∧
      ¬ (lines "window.alert('');\n").map (repeated 1 "  " ++ ·) <:+:
        lines "do \x7b\n  trap();  window.alert('');\n\x7d while (false);\n" := by
  have hresolve : Identifier.ofText ((Generator.startNames {} {}).resolve "f0" .procedure) = "f0" := by
    rw [Names.resolve, if_neg (by decide), Identifier.ofText, RawText.bytes_ofString, bytesOf_eq]
    decide
  have hfree : (Generator.startNames {} {}).free?
      (Identifier.ofText ((Generator.startNames {} {}).resolve "f0" .procedure)) = some "f0" := by
    rw [hresolve]
    exact Names.free?_startNames (by decide) rfl rfl
  obtain ⟨hname, hclean⟩ := Names.get_of_free (Generator.known_startNames {} {}) hfree
  have hrun := run_procedureAround hname rfl (hclean.trans (Generator.failure_startNames {} {}))
  refine ⟨⟨_, _, hrun, ?_, by decide +kernel⟩, ⟨nested_ifAround (nested_ifAround (.here rfl rfl)), rfl⟩, rfl,
    by decide +kernel⟩
  have hkey : RawText.ofString "%f0" = .ofString "%" ++ .ofString "f0" := RawText.ofString_append "%" "f0"
  rw [hkey, definingPass, Entries.lookup_cons_eq, if_pos rfl]

end Blockwright
