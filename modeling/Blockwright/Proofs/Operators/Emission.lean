import Blockwright.Proofs.Operators.Emitters
import Blockwright.Proofs.Workspace.Trees
/-!
# Code keeps the tree of its block

The code of a block of operators, however deep, parses as the tree that the block stands for, up
to how chains of one associative operator are grouped. By induction on the block its code is the
tree as it is written; the grammar then reads that back.
-/

namespace Blockwright

open Operators Emit

variable {settings : PassSettings}

/-! ## Comments -/

namespace Block

theorem Bare.cases {head : Head} {sockets : List Socket} {next : Option Block} (h : Bare ⟨head, sockets, next⟩) :
    head.comment = "" ∧ next = none ∧ ∀ c ∈ socketBlocks sockets, c.head.comment = "" ∧ c.next.isNone = true := by
  unfold Bare at h
  rw [blocks] at h
  obtain ⟨⟨hcomment, hnext⟩, hrest⟩ := List.forall_mem_cons.1 h
  refine ⟨hcomment, Option.isNone_iff_eq_none.1 hnext, fun c hc => ?_⟩
  exact hrest c (List.mem_append_left _ hc)

theorem nestedComment_bare {b : Block} (h : b.Bare) : nestedComment b = "" := by
  have hnone : (b.blocks.map (·.head.comment)).filter (· != "") = [] := by
    simp only [List.filter_eq_nil_iff, List.mem_map]
    rintro comment ⟨c, hc, rfl⟩
    simp [(h c hc).1]
  simp [nestedComment, hnone]

theorem socketComments_bare {sockets : List Socket}
    (h : ∀ c ∈ socketBlocks sockets, c.head.comment = "" ∧ c.next.isNone = true) : socketComments sockets = "" := by
  induction sockets with
  | nil => rfl
  | cons socket rest ih =>
    obtain ⟨name, kind, plugged⟩ := socket
    cases plugged with
    | none =>
      rw [socketBlocks] at h
      cases kind <;> exact ih h
    | some b =>
      rw [socketBlocks] at h
      have hb : b.Bare := fun c hc => h c (List.mem_append_left _ hc)
      have hrest := ih fun c hc => h c (List.mem_append_right _ hc)
      cases kind
      · rw [socketComments, nestedComment_bare hb, hrest]; rfl
      · exact hrest

theorem commentLines_bare {b : Block} (h : b.Bare) : commentLines b = "" := by
  obtain ⟨head, sockets, next⟩ := b
  obtain ⟨hcomment, -, hsockets⟩ := h.cases
  simp only [commentLines, ownComment, hcomment, socketComments_bare hsockets]
  split <;> rfl

/-- Neither the block nor anything in it writes comment lines or has a block chained behind it. A block
that is plugged into a value socket writes none, whatever comment it has. -/
def Silent (b : Block) : Prop := ∀ c ∈ b.blocks, commentLines c = "" ∧ c.next = none

theorem Silent.cases {head : Head} {sockets : List Socket} {next : Option Block} (h : Silent ⟨head, sockets, next⟩) :
    commentLines ⟨head, sockets, next⟩ = "" ∧ next = none ∧
      ∀ c ∈ socketBlocks sockets, commentLines c = "" ∧ c.next = none := by
  unfold Silent at h
  rw [blocks] at h
  obtain ⟨⟨hcomment, hnext⟩, hrest⟩ := List.forall_mem_cons.1 h
  exact ⟨hcomment, hnext, fun c hc => hrest c (List.mem_append_left _ hc)⟩

theorem Bare.silent {b : Block} (h : b.Bare) : b.Silent := by
  intro c hc
  have hbare : c.Bare := fun d hd => h d (mem_blocks_trans hc hd)
  exact ⟨commentLines_bare hbare, Option.isNone_iff_eq_none.1 (h c hc).2⟩

end Block

/-! ## The code of a block -/

theorem Site.dress_bare {s : Site} (hcomment : commentLines s.block = "") (hnext : s.next = none) (code : String)
    (thisOnly : Bool) : s.dress code thisOnly = pure code := by
  unfold Site.dress Site.nextCode
  rw [hcomment, hnext]
  cases thisOnly <;> simp

theorem Site.emits_emit {s : Site} {emitter : Emitter} {t : OpTree Leaf}
    (hemitter : standard.lookup s.head.kind = some emitter)
    (hemit : Emits settings (do let r ← emitter s; check; return r) t)
    (hlink : (s.head.link != .value && s.head.link != .top) = false) (hcomment : commentLines s.block = "")
    (hnext : s.next = none) (thisOnly : Bool) : Emits settings (s.emit standard thisOnly) t := by
  unfold Site.emit
  simp only [hemitter]
  apply (hemit.inBlock s.block.name).map
  · exact fun _ _ hn => emits_depends t hn
  · intro n _
    simp [hlink, s.dress_bare hcomment hnext]

namespace Block

theorem fits_none : Fits settings none none := by
  refine ⟨fun _ q hq => ?_, fun t ht => ?_⟩
  · cases hq
  · cases ht

/-- A disabled block with nothing behind it is passed over. -/
theorem gives_disabled {b : Block} (hb : b.Silent) (h : b.head.disabled = true) :
    Gives settings (b.emit standard false) [] fun _ => .handled := by
  obtain ⟨head, sockets, next⟩ := b
  obtain ⟨-, rfl, -⟩ := hb.cases
  have hdisabled : head.disabled = true := h
  rw [emit, if_pos hdisabled]
  exact .pure _

mutual

/-- Emitting a block of operators that writes no comments gives its tree. -/
theorem emits_silent (b : Block) (hb : b.Silent) (t : OpTree Leaf) (ht : b.tree? = some t) (thisOnly : Bool) :
    Emits settings (b.emit standard thisOnly) t := by
  obtain ⟨head, sockets, next⟩ := b
  obtain ⟨hcomment, rfl, hsockets⟩ := hb.cases
  rw [tree?] at ht
  split at ht
  · cases ht
  · rename_i hlive
    simp only [Bool.or_eq_true, not_or, Bool.not_eq_true] at hlive
    obtain ⟨reading, hreading, ht⟩ := Option.bind_eq_some_iff.1 ht
    obtain ⟨emitter, hemitter, hwrites⟩ := writes_all (mem_of_lookup hreading)
    have hholds : Operators.Holds settings (site standard ⟨head, sockets, none⟩) (parts sockets) := fits_parts sockets hsockets
    have hemit := hwrites (site standard ⟨head, sockets, none⟩) (parts sockets) t hholds ht
    have hsite := Site.emits_emit (s := site standard ⟨head, sockets, none⟩) hemitter hemit hlive.2 hcomment rfl
      thisOnly
    rw [emit, hlive.1]
    exact hsite

theorem fits_parts (sockets : List Socket)
    (hb : ∀ c ∈ socketBlocks sockets, commentLines c = "" ∧ c.next = none) (socket : String) :
    Fits settings ((plugs standard sockets).lookup socket).join ((parts sockets).get socket) := by
  match sockets with
  | [] => exact fits_none
  | ⟨name, kind, none⟩ :: rest =>
    rw [socketBlocks] at hb
    rw [plugs, parts, Parts.get, List.lookup_cons, List.lookup_cons]
    split
    · exact fits_none
    · exact fits_parts rest hb socket
  | ⟨name, kind, some b⟩ :: rest =>
    rw [socketBlocks] at hb
    rw [plugs, parts, Parts.get, List.lookup_cons, List.lookup_cons]
    have hsilent : b.Silent := fun c hc => hb c (List.mem_append_left _ hc)
    split
    · -- a disabled block is plugged in and yet counts as missing
      refine ⟨fun hpart q hq => ?_, fun t ht => ?_⟩
      · cases hq
        dsimp only [Option.join] at hpart
        split at hpart
        · rename_i hdisabled
          exact gives_disabled hsilent hdisabled
        · cases hpart
      · refine ⟨_, rfl, ?_⟩
        dsimp only [Option.join] at ht
        split at ht
        · cases ht
        · exact emits_silent b hsilent t (Option.some.inj ht) false
    · exact fits_parts rest (fun c hc => hb c (List.mem_append_right _ hc)) socket

end

/-- Emitting a block of operators without comments gives its tree. -/
theorem emits_emit (b : Block) (hb : b.Bare) (t : OpTree Leaf) (ht : b.tree? = some t) (thisOnly : Bool) :
    Emits settings (b.emit standard thisOnly) t :=
  emits_silent b hb.silent t ht thisOnly

/-- In a pass without failures, the code of a block of operators parses as the tree of the block
up to how chains of one associative operator are grouped, under the names that the pass then has
for its variables. Emitting it asks for these names and does nothing else, and fails only when
none is left for one of them. -/
theorem emit_regroups {words : List String} {rs : List Names.Request} {p : Pass}
    (hnames : p.names = (Names.new words).after rs) (hclean : p.failure? = none) {b : Block} (hb : b.Bare)
    {t : OpTree Leaf} (ht : b.tree? = some t) (thisOnly : Bool) :
    Ends settings p (b.emit standard thisOnly)
      (fun r p' => p' = p.asking t.leaves ∧ ∃ code u, r = .value code t.order ∧ parse code = some u ∧
        Regroups (t.map (Leaf.text p'.names)) u)
      (p.Exhausts t.leaves) := by
  have hsound : p.names.Sound := by
    rw [hnames]
    exact (Names.sound_new words).after rs
  apply ((emits_emit b hb t ht thisOnly).ends p hsound hclean).mono
  · rintro r p' ⟨rfl, hclean', rfl⟩
    have hknown := known_requests hsound (Pass.failure?_eq_none.1 hclean').2
    have hleaves : ∀ l ∈ t.leaves, isLeaf (l.text (p.asking t.leaves).names) = true :=
      fun l hl => (hknown l hl).isLeaf_text (hsound.after _)
    exact ⟨rfl, _, _, rfl, OpTree.parse_code (OpTree.isLeaf_texts hleaves), OpTree.regroups_grouped _⟩
  · exact fun f hf => hf

/-- The block of `0 - (x + 0)`, with three empty sockets. -/
def difference : Block :=
  ⟨{ kind := "math_arithmetic", fields := [⟨"OP", "MINUS", false⟩] },
    [⟨"B", .value, some ⟨{ kind := "math_arithmetic", fields := [⟨"OP", "ADD", false⟩], link := .value },
      [⟨"A", .value, some ⟨{ kind := "variables_get", fields := [⟨"VAR", "x", true⟩], link := .value }, [], none⟩⟩],
      none⟩⟩],
    none⟩

theorem tree?_difference : difference.tree? =
    some (.binary .sub (.leaf .zero) (.binary .add (.leaf (.named (.ofString "x"))) (.leaf .zero))) := by
  have hminus : (RawText.ofString "MINUS").text = "MINUS" := RawText.text_ofString _
  have hadd : (RawText.ofString "ADD").text = "ADD" := RawText.text_ofString _
  simp [difference, tree?, parts, Reading.all, List.lookup_cons, Reading.arithmetic, Reading.arithmetics,
    Reading.variableUse, Reading.between, Parts.tree?, Parts.get, Head.field, Head.field?, Head.written,
    Head.written?, hminus, hadd]

theorem bare_difference : difference.Bare := by
  simp [Bare, difference, blocks, socketBlocks, nextBlocks]

theorem get_x : ((Names.new []).get (.ofString "x") .variable).1 = "x" ∧
    ((Names.new []).get (.ofString "x") .variable).2.failure = none := by
  have hid : Identifier.ofText (.ofString "x") = "x" := by
    rw [Identifier.ofText, RawText.bytes_ofString, Text.bytesOf_eq]
    decide
  simp [Names.get, Names.resolve, Names.new, Names.reserve, Names.distinct, Names.distinctFrom, Names.free?,
    Names.taken, Names.isReserved, hid]

theorem difference_regroups :
    ∃ code u p', (difference.emit standard false).run {} { names := Names.new [] }
        = (.ok (.value code Order.subtraction), p') ∧ parse code = some u ∧
      Regroups (.binary .sub (.leaf "0") (.binary .add (.leaf "x") (.leaf "0"))) u := by
  have hnames : Names.new [] = (Names.new []).after [] := rfl
  have hends : Ends {} { names := Names.new [] } (difference.emit standard false) _ _ :=
    emit_regroups hnames rfl bare_difference tree?_difference false
  unfold Ends at hends
  rcases hrun : (difference.emit standard false).run {} { names := Names.new [] } with ⟨f | r, p'⟩
  · rw [hrun] at hends
    obtain ⟨e, -, he⟩ := hends
    exact absurd (get_x.2.symm.trans he) (by simp)
  · rw [hrun] at hends
    obtain ⟨rfl, code, u, rfl, hparse, hregroups⟩ := hends
    have hx := (Leaf.known_serve (Names.sound_new []) get_x.2).2.trans get_x.1
    refine ⟨code, u, _, rfl, hparse, ?_⟩
    rw [← hx]
    exact hregroups

/-- An operation of logic without operands. -/
def emptyOperation : Block := ⟨{ kind := "logic_operation", fields := [⟨"OP", "AND", false⟩] }, [], none⟩

theorem tree?_emptyOperation : emptyOperation.tree? = some (.leaf (.truth false)) := by
  have hand : (RawText.ofString "AND").text = "AND" := RawText.text_ofString _
  simp [emptyOperation, tree?, parts, Reading.all, List.lookup_cons, Reading.logical, Reading.logicals, Parts.get,
    Head.field, Head.field?, Head.written?, hand]

/-- No operator is left of it: its code is the literal `false`. -/
theorem emptyOperation_loses_operator :
    ∃ p', (emptyOperation.emit standard false).run {} { names := Names.new [] }
        = (.ok (.value "false" Order.atomic), p') ∧ parse "false" = some (.leaf "false") ∧
      ∀ a b, ¬Regroups (.binary .and a b) (.leaf "false") := by
  have hbare : emptyOperation.Bare := by simp [Bare, emptyOperation, blocks, socketBlocks, nextBlocks]
  have hemits : Emits {} (emptyOperation.emit standard false) (.leaf (.truth false)) :=
    emits_emit _ hbare _ tree?_emptyOperation false
  have hends := hemits.ends { names := Names.new [] } (Names.sound_new []) rfl
  unfold Ends at hends
  rcases hrun : (emptyOperation.emit standard false).run {} { names := Names.new [] } with ⟨f | r, p'⟩
  · rw [hrun] at hends
    obtain ⟨e, -, he⟩ := hends
    cases he
  · rw [hrun] at hends
    obtain ⟨-, -, rfl⟩ := hends
    refine ⟨p', rfl, OpTree.parse_code (t := .leaf "false") (by decide), fun a b h => ?_⟩
    cases h.root?

end Block
end Blockwright
