import Blockwright.Emit.Index
import Blockwright.Emit.Site
import Blockwright.Generator
import Blockwright.Proofs.Names.Identifiers
import Blockwright.Proofs.Text.Annotated
import Blockwright.Proofs.Text.Indentation
import Blockwright.Proofs.Twins.Pass
/-!
# Two blocks side by side

Two blocks that differ in their comments, in the ids of their variables and in ids that no trap
shows are emitted in step whenever what they hold is. Their own code differs by the remarks inside
it only, so that it can follow any other code: literals, numbers and positions begin with something else
than white space, and so do the lines of comments, which are put in front of it afterwards.
-/

/-! ## How code begins -/

namespace Blockwright.Text

theorem opens_wrap {code : String} (h : opens code = true) (outer inner : Order) :
    opens (Order.wrap code outer inner) = true := by
  unfold Order.wrap
  split
  · simp +decide
  · exact h

/-! ## Literals -/

theorem opensChars_cons {c : Char} (hc : isCodeBlank c = false) (cs : List Char) : opensChars (c :: cs) = true := by
  have hfeed : (c != '\n') = true := bne_iff_ne.2 (by rintro rfl; cases hc)
  rw [opensChars, hfeed, hc]
  rfl

theorem opens_quote (text : String) : opens (quote text) = true := by
  rw [opens, quote, String.toList_ofList]
  exact opensChars_cons rfl _

theorem opens_quoteLines (text : String) : opens (quoteLines text) = true := by
  obtain ⟨piece, pieces, hsplit⟩ : ∃ piece pieces, splitOn '\n' text = piece :: pieces := by
    obtain ⟨piece, pieces, hsplit⟩ := exists_splitChars '\n' text.toList
    exact ⟨_, _, by rw [splitOn, hsplit, List.map_cons]⟩
  rw [quoteLines, hsplit, List.map_cons]
  cases pieces with
  | nil => exact opens_quote piece
  | cons next rest => exact opens_append (opens_append (opens_quote piece) _) _

/-! ## Names -/

theorem isCodeBlank_of_isWordChar {c : Char} (hc : isWordChar c = true) : isCodeBlank c = false := by
  cases hblank : isCodeBlank c with
  | false => rfl
  | true =>
    simp only [isCodeBlank, Bool.or_eq_true, beq_iff_eq] at hblank
    rcases hblank with (((rfl | rfl) | rfl) | rfl) | rfl <;> exact absurd hc (by decide)

theorem opens_of_isLegal {name : String} (h : Identifier.isLegal name = true) : opens name = true := by
  obtain ⟨c, cs, hname⟩ := List.exists_cons_of_ne_nil (by simpa using Identifier.ne_empty_of_isLegal h : name.toList ≠ [])
  have hc : isWordChar c = true := Identifier.isWordChar_of_mem h c (hname ▸ List.mem_cons_self)
  rw [opens, hname]
  exact opensChars_cons (isCodeBlank_of_isWordChar hc) cs

/-! ## Numbers -/

theorem isCodeBlank_of_isDigit {d : Char} (hd : isDigit d = true) : isCodeBlank d = false :=
  isCodeBlank_of_isWordChar (Identifier.isWordChar_of_isDigit hd)

theorem opensChars_positional {d : Char} (hd : isDigit d = true) (ds : List Char) (point : Int) :
    opensChars (Double.positional (d :: ds) point) = true := by
  unfold Double.positional
  split_ifs with hpoint hlong
  · exact opensChars_cons rfl _
  · exact opensChars_cons (isCodeBlank_of_isDigit hd) _
  · obtain ⟨n, hn⟩ : ∃ n, point.toNat = n + 1 := ⟨point.toNat - 1, by omega⟩
    rw [hn, List.take_succ_cons]
    exact opensChars_cons (isCodeBlank_of_isDigit hd) _

theorem opensChars_scientific {d : Char} (hd : isDigit d = true) (ds : List Char) (width : Nat) (exponent : Int) :
    opensChars (Double.scientific width (d :: ds) exponent) = true := by
  cases ds <;> exact opensChars_cons (isCodeBlank_of_isDigit hd) _

theorem opens_format (x : Double) : opens x.format = true := by
  rw [Double.format]
  rcases x with _ | negative | ⟨negative, m, e⟩
  · decide
  · cases negative <;> decide
  · rw [Double.toText]
    split
    · split_ifs <;> decide
    · extract_lets shortest digits exponent body
      obtain ⟨d, ds, hdigits⟩ := List.exists_cons_of_ne_nil (Nat.toDigits_ne_nil (n := shortest.value) (b := 10))
      have hd : isDigit d = true := Identifier.isDigit_of_mem_toDigits (hdigits ▸ List.mem_cons_self)
      have hbody : opensChars body = true := by
        show opensChars (if _ then _ else _) = true
        rw [show digits = d :: ds from hdigits]
        split_ifs
        · exact opensChars_scientific hd ds _ _
        · exact opensChars_positional hd ds _
      have hcode : opens (String.ofList body) = true := by rwa [opens, String.toList_ofList]
      split_ifs <;> simp +decide [hcode]

/-! ## Positions -/

theorem opens_shiftCode {code : String} (h : opens code = true) (delta : Int) (negate : Bool) (outer : Order) :
    opens (shiftCode code delta negate outer) = true := by
  unfold shiftCode
  extract_lets moved
  have hmoved : opens moved = true := by
    show opens (if _ then _ else _) = true
    split_ifs <;> simp [h]
  split_ifs
  · exact opens_wrap (by simp +decide) _ _
  · exact opens_wrap (by simp +decide) _ _
  · exact opens_wrap hmoved _ _
  · exact opens_wrap hmoved _ _
  · exact hmoved

end Blockwright.Text

namespace Blockwright

open Text

/-! ## Results -/

/-- Code of two blocks before comments are put in front: the same value, or statements that differ
by remarks inside. -/
def Result.Bare (π : Pairing) : Result → Result → Prop
  | .handled, .handled => True
  | .statement a, .statement b =>
    Inline π.remark a b ∧ (opens a = true ∧ opens b = true) ∧ endsLine a = true ∧ endsLine b = true
  | .value a order, .value b order' => a = b ∧ order = order' ∧ opens a = true
  | _, _ => False

/-- Code of two blocks with their comments. It is the same value where `fixed` holds, and begins
with no remark where `inline` does. -/
def Result.Twin (π : Pairing) (fixed inline : Prop) : Result → Result → Prop
  | .handled, .handled => True
  | .statement a, .statement b => (opens a = true ∧ opens b = true) ∧ Annotated π.remark a.toList b.toList ∧
      (inline → Inline π.remark a b)
  | .value a order, .value b order' => order = order' ∧ (opens a = true ∧ opens b = true) ∧
      Annotated π.remark a.toList b.toList ∧ (fixed → a = b)
  | _, _ => False

theorem Result.Twin.mono {π : Pairing} {fixed inline fixed' inline' : Prop} {r r' : Result}
    (h : r.Twin π fixed inline r') (hfixed : fixed' → fixed) (hinline : inline' → inline) :
    r.Twin π fixed' inline' r' := by
  cases r <;> cases r'
  · trivial
  · exact h
  · exact h
  · exact h
  · exact ⟨h.1, h.2.1, h.2.2 ∘ hinline⟩
  · exact h
  · exact h
  · exact h
  · exact ⟨h.1, h.2.1, h.2.2.1, h.2.2.2 ∘ hfixed⟩

/-- The comment lines of two blocks: the same, or remarks in the first run only. -/
structure Pairing.Comments (π : Pairing) (c c' : String) : Prop where
  lines : c = "" ∨ opens c = true ∧ endsLine c = true
  same_or_remarks : c' = c ∨ c' = "" ∧ ∃ ls : List (List Char),
    (∀ l ∈ ls, '\n' ∉ l ∧ π.remark l) ∧ c.toList = ls.flatMap (· ++ ['\n'])

namespace Pairing.Comments

variable {π : Pairing} {c c' a b : String}

theorem eq (h : π.Comments c c') (hexact : π.Exact) : c' = c := by
  rcases h.same_or_remarks with hsame | ⟨hc', ls, hls, hc⟩
  · exact hsame
  · cases ls with
    | nil =>
      have hnone : c = "" := String.toList_injective hc
      rw [hc', hnone]
    | cons l ls => exact absurd (hls l List.mem_cons_self).2 (hexact l)

theorem opens_append (h : π.Comments c c') (ha : opens a = true) : opens (c ++ a) = true := by
  rcases h.lines with rfl | ⟨hc, -⟩
  · rwa [String.empty_append]
  · exact Text.opens_append hc a

theorem opens_append' (h : π.Comments c c') (hb : opens b = true) : opens (c' ++ b) = true := by
  rcases h.same_or_remarks with rfl | ⟨rfl, -⟩
  · exact h.opens_append hb
  · rwa [String.empty_append]

/-- Comments in front of code. -/
theorem annotated (h : π.Comments c c') (hb : opens b = true) (hab : Annotated π.remark a.toList b.toList) :
    Annotated π.remark (c ++ a).toList (c' ++ b).toList := by
  rw [String.toList_append, String.toList_append]
  rcases h.same_or_remarks with rfl | ⟨rfl, ls, hls, hc⟩
  · refine .behind ?_ hab
    rcases h.lines with rfl | ⟨-, hc⟩
    · exact whole_nil
    · exact whole_of_endsLine hc
  · rw [hc]
    exact hab.remarks hls hb

/-- Comments that may stand in the middle of a line do not differ. -/
theorem inline_of_none (h : π.Comments c c') (hc : c = "") : Inline π.remark c c' := by
  rcases h.same_or_remarks with rfl | ⟨rfl, -⟩
  · exact .same _
  · rw [hc]; exact .same _

end Pairing.Comments

/-! ## Heads -/

/-- Two heads that emitters cannot tell apart, but for the keys of variables. -/
structure Head.Twin (π : Pairing) (h h' : Head) : Prop where
  kind : h'.kind = h.kind
  id : π.settings.loopTrap = "" ∨ h'.id = h.id
  written? : ∀ name, name ≠ "VAR" → h'.written? name = h.written? name
  key : π.SameKey (h.written "VAR") (h'.written "VAR")
  extra : h'.extra = { h.extra with params := h'.extra.params }
  params : List.Forall₂ (fun p p' => π.SameKey (Emit.paramKey p) (Emit.paramKey p')) h.extra.params h'.extra.params
  link : h'.link = h.link
  disabled : h'.disabled = h.disabled
  owned : h'.owned = h.owned

namespace Head.Twin

variable {π : Pairing} {h h' : Head}

theorem written (ht : h.Twin π h') {name : String} (hname : name ≠ "VAR") : h'.written name = h.written name := by
  rw [Head.written, Head.written, ht.written? name hname]

theorem field? (ht : h.Twin π h') {name : String} (hname : name ≠ "VAR") : h'.field? name = h.field? name := by
  rw [Head.field?, Head.field?, ht.written? name hname]

theorem field (ht : h.Twin π h') {name : String} (hname : name ≠ "VAR") : h'.field name = h.field name := by
  rw [Head.field, Head.field, ht.field? hname]

theorem fieldOr (ht : h.Twin π h') {name : String} (hname : name ≠ "VAR") (fallback : String) :
    h'.fieldOr name fallback = h.fieldOr name fallback := by
  rw [Head.fieldOr, Head.fieldOr, ht.field hname]

theorem outputConnected (ht : h.Twin π h') : h'.outputConnected = h.outputConnected := by
  rw [Head.outputConnected, Head.outputConnected, ht.link]

end Head.Twin

/-! ## Sites -/

open Emit

/-- Emissions in step of blocks of one kind. -/
structure Plug.Twin (π : Pairing) (fixed inline : Prop) (P P' : Plug) : Prop where
  kind : P'.block.head.kind = P.block.head.kind
  emit : Paired π (Result.Twin π fixed inline) P.emit P'.emit

/-- The heads of procedure definitions. -/
def Head.isDefinition (h : Head) : Bool := h.kind == "procedures_defreturn" || h.kind == "procedures_defnoreturn"

/-- The site of a block gives a value. -/
def Site.EmitsValue (settings : PassSettings) (s : Site) : Prop :=
  ∃ p code order p', (s.emit standard true).run settings p = (.ok (.value code order), p')

/-- Two sites whose plugs are emitted in step. What is chained behind a definition begins with no
remark, since it is written behind a brace. -/
structure Site.Twin (π : Pairing) (s s' : Site) : Prop where
  head : s.head.Twin π s'.head
  sockets : s'.block.sockets.map (·.name) = s.block.sockets.map (·.name)
  comments : π.Comments (commentLines s.block) (commentLines s'.block)
  plugs : ∀ socket, Option.Rel (Plug.Twin π True False) (s.plug? socket) (s'.plug? socket)
  next : Option.Rel (Plug.Twin π False (s.head.isDefinition = true)) s.next s'.next
  alone : π.Exact ∨ (s.EmitsValue π.settings → s.next = none)

namespace Site.Twin

variable {π : Pairing} {s s' : Site}

theorem kind (h : s.Twin π s') : s'.block.head.kind = s.block.head.kind := h.head.kind

theorem hasSocket (h : s.Twin π s') (socket : String) : s'.hasSocket socket = s.hasSocket socket := by
  have hfind : ∀ b : Block, (b.socket? socket).isSome = (b.sockets.map (·.name)).contains socket := by
    intro b
    rw [Bool.eq_iff_iff]
    simp [Block.socket?, List.find?_isSome, List.mem_map]
  rw [Site.hasSocket, Site.hasSocket, hfind, hfind, h.sockets]

theorem socketCount (h : s.Twin π s') (start : String) :
    Emit.socketCount s'.block start = Emit.socketCount s.block start := by
  have hnames : ∀ b : Block, b.sockets.map (fun t => socketNumber start t.name)
      = (b.sockets.map (·.name)).map (socketNumber start) := by
    intro b
    rw [List.map_map]
    rfl
  rw [Emit.socketCount, Emit.socketCount, hnames, hnames, h.sockets]

theorem unhandled (h : s.Twin π s') {α β : Type} {R : α → β → Prop} {field : String} (hfield : field ≠ "VAR") :
    Paired π R (s.unhandled field) (s'.unhandled field) := by
  rw [Site.unhandled, Site.unhandled, h.head.kind, h.head.written hfield]
  exact .fail _

theorem variableName (h : s.Twin π s') : Agree π Unbroken (s.variableName "VAR") (s'.variableName "VAR") :=
  agree_variable h.head.key

theorem oneBased (h : s.Twin π s') : Agree π (fun _ => True) s.oneBased s'.oneBased := by
  refine Agree.bind .read fun settings _ => ?_
  rw [h.head.owned]
  exact Agree.pure trivial

theorem value (h : s.Twin π s') (socket : String) (outer : Order) :
    Agree π (fun code => code = "" ∨ opens code = true) (s.value socket outer) (s'.value socket outer) := by
  have hplug := h.plugs socket
  unfold Site.value
  generalize s.plug? socket = plug, s'.plug? socket = plug' at hplug ⊢
  cases hplug with
  | none => exact Agree.pure (.inl rfl)
  | some hplug =>
    refine hplug.emit.bind fun r r' hr => ?_
    cases r <;> cases r'
    · exact Agree.pure (.inl rfl)
    · exact hr.elim
    · exact hr.elim
    · exact hr.elim
    · exact .failIn hplug.kind _
    · exact hr.elim
    · exact hr.elim
    · exact hr.elim
    · obtain ⟨rfl, ⟨hopens, -⟩, -, hsame⟩ := hr
      obtain rfl := hsame trivial
      refine Agree.pure ?_
      split_ifs with hempty
      · exact .inl rfl
      · exact .inr (opens_wrap hopens _ _)

theorem valueOr (h : s.Twin π s') (socket : String) (outer : Order) {fallback : String}
    (hf : opens fallback = true) :
    Agree π (fun code => opens code = true) (s.valueOr socket outer fallback) (s'.valueOr socket outer fallback) := by
  refine Agree.bind (h.value socket outer) fun code hcode => Agree.pure ?_
  split_ifs with hempty
  · exact hf
  · exact hcode.resolve_left hempty

theorem statements (h : s.Twin π s') (hfit : π.Fit) (socket : String) :
    Paired π (fun a b => Annotated π.remark a.toList b.toList) (s.statements socket) (s'.statements socket) := by
  have hplug := h.plugs socket
  unfold Site.statements
  generalize s.plug? socket = plug, s'.plug? socket = plug' at hplug ⊢
  cases hplug with
  | none => exact .pure (.same _)
  | some hplug =>
    refine hplug.emit.bind fun r r' hr => ?_
    cases r <;> cases r'
    · exact .pure (.same _)
    · exact hr.elim
    · exact hr.elim
    · exact hr.elim
    · next a b =>
      obtain ⟨⟨ha, hb⟩, hab, -⟩ := hr
      dsimp only
      rw [if_neg (ne_empty_of_opens ha), if_neg (ne_empty_of_opens hb)]
      refine Agree.bind .indent fun indent hi => .pure ?_
      subst hi
      rw [toList_prefixLines (ne_empty_of_opens ha), toList_prefixLines (ne_empty_of_opens hb)]
      exact hab.indented hfit.indent
    · exact hr.elim
    · exact hr.elim
    · exact hr.elim
    · exact .failIn hplug.kind _

/-- What is chained behind a block, on lines of its own; behind a definition it may also follow on
the same line. -/
theorem nextCode (h : s.Twin π s') : Paired π (fun a b => Annotated π.remark a.toList b.toList ∧
    (s.head.isDefinition = true → Inline π.remark a b)) s.nextCode s'.nextCode := by
  have hnext := h.next
  unfold Site.nextCode
  generalize s.next = plug, s'.next = plug' at hnext ⊢
  cases hnext with
  | none => exact .pure ⟨.same _, fun _ => .same _⟩
  | some hplug =>
    refine hplug.emit.bind fun r r' hr => ?_
    cases r <;> cases r'
    · exact .pure ⟨.same _, fun _ => .same _⟩
    · exact hr.elim
    · exact hr.elim
    · exact hr.elim
    · exact .pure hr.2
    · exact hr.elim
    · exact hr.elim
    · exact hr.elim
    · exact .failIn hplug.kind _

/-! ## Comments around code -/

/-- Statements with their comments and what is chained behind them. -/
theorem dress (h : s.Twin π s') {code code' : String} (hcode : Inline π.remark code code')
    (hopens : opens code = true ∧ opens code' = true) (hends : endsLine code = true) (thisOnly : Bool) :
    Paired π (fun a b => (opens a = true ∧ opens b = true) ∧ Annotated π.remark a.toList b.toList ∧
        (Inline π.remark (commentLines s.block) (commentLines s'.block) → Inline π.remark a b))
      (s.dress code thisOnly) (s'.dress code' thisOnly) := by
  have hdressed : ∀ next next', Annotated π.remark next.toList next'.toList →
      let a := commentLines s.block ++ code ++ next
      let b := commentLines s'.block ++ code' ++ next'
      (opens a = true ∧ opens b = true) ∧ Annotated π.remark a.toList b.toList ∧
        (Inline π.remark (commentLines s.block) (commentLines s'.block) → Inline π.remark a b) := by
    intro next next' hnext
    have hbehind := hcode.lines hends hnext
    have hopens' := opens_append hopens.2 next'
    refine ⟨⟨?_, ?_⟩, ?_, fun hcomments => ?_⟩
    · exact opens_append (h.comments.opens_append hopens.1) next
    · exact opens_append (h.comments.opens_append' hopens.2) next'
    · rw [String.append_assoc, String.append_assoc]
      exact h.comments.annotated hopens' hbehind.annotated
    · rw [String.append_assoc, String.append_assoc]
      exact hcomments.append hbehind
  unfold Site.dress
  cases thisOnly with
  | true => exact Paired.bind (.pure (.same "".toList)) fun a b hab => .pure (hdressed a b hab)
  | false => exact h.nextCode.bind fun a b hab => .pure (hdressed a b hab.1)

/-- A definition with its comments and what is chained behind it. -/
theorem dress_definition (h : s.Twin π s') {code code' : String} (hcode : Inline π.remark code code')
    (hopens : opens code' = true) (hdefinition : s.head.isDefinition = true) :
    Paired π (fun a b => Annotated π.remark a.toList b.toList) (s.dress code false) (s'.dress code' false) := by
  refine h.nextCode.bind fun next next' hnext => .pure ?_
  rw [String.append_assoc, String.append_assoc]
  exact h.comments.annotated (opens_append hopens next') (hcode.append (hnext.2 hdefinition)).annotated

/-- A value with its comments. -/
theorem dress_value (h : s.Twin π s') {code : String} (hopens : opens code = true)
    (halone : π.Exact ∨ s.next = none) (hlink : s.head.link = .value ∨ s.head.link = .top) (thisOnly : Bool) :
    Paired π (fun a b => (opens a = true ∧ opens b = true) ∧ Annotated π.remark a.toList b.toList ∧
        (π.Exact ∨ s.head.link ≠ .top → a = b)) (s.dress code thisOnly) (s'.dress code thisOnly) := by
  have hnext : Paired π (fun a b => a = b) s.nextCode s'.nextCode := by
    rcases halone with hexact | hnone
    · exact h.nextCode.mono fun a b hab => String.toList_injective (hab.1.eq hexact)
    · have hnone' : s'.next = none := by
        have hrel := h.next
        rw [hnone] at hrel
        generalize s'.next = plug' at hrel ⊢
        cases hrel
        rfl
      unfold Site.nextCode
      rw [hnone, hnone']
      exact .pure rfl
  have hdressed : ∀ next next', next = next' →
      let a := commentLines s.block ++ code ++ next
      let b := commentLines s'.block ++ code ++ next'
      (opens a = true ∧ opens b = true) ∧ Annotated π.remark a.toList b.toList ∧
        (π.Exact ∨ s.head.link ≠ .top → a = b) := by
    rintro next _ rfl
    have hopens' := opens_append hopens next
    refine ⟨⟨?_, ?_⟩, ?_, ?_⟩
    · exact opens_append (h.comments.opens_append hopens) next
    · exact opens_append (h.comments.opens_append' hopens) next
    · rw [String.append_assoc, String.append_assoc]
      exact h.comments.annotated hopens' (.same _)
    · rintro (hexact | htop)
      · rw [h.comments.eq hexact]
      · -- a value that is plugged in leaves its comments to the statement around it
        have hconnected : s.head.outputConnected = true := by
          simp [Head.outputConnected, hlink.resolve_right htop]
        have hconnected' : s'.head.outputConnected = true := h.head.outputConnected.trans hconnected
        rw [commentLines, commentLines]
        exact (congrArg (· ++ code ++ next) ((if_pos hconnected).trans (if_pos hconnected').symm))
  unfold Site.dress
  cases thisOnly with
  | true => exact Paired.bind (.pure rfl) fun a b hab => .pure (hdressed a b hab)
  | false => exact hnext.bind fun a b hab => .pure (hdressed a b hab)

end Site.Twin
end Blockwright
