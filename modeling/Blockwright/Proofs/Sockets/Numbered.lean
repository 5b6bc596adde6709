import Blockwright.Emit.Procedures
import Blockwright.Emit.Texts
import Blockwright.Generator
import Blockwright.Proofs.Number.Wholes
import Blockwright.Proofs.Sockets.Fillings
import Blockwright.Proofs.Text.Literals
/-!
# Numbered operands

Lists, joins of texts and calls of procedures have operands in sockets that are one text with a
number behind it. One description covers the four kinds. A block of such a kind has at least as many
operands as its mutator says and more than the number of any of its sockets, and the operand of a
number is what fills the socket of that number.
-/

namespace Blockwright

open Emit

/-- How a kind of block writes its operands. -/
structure OperandKind where
  /-- What the names of the sockets begin with. -/
  start : String
  /-- The literal that stands for an operand without code. -/
  fallback : String
  /-- How many operands the mutator asks for. -/
  asked : ExtraState → Int
  /-- What is asked of the pass in front of the operands: the name of what is called. -/
  callee : Site → Emit String
  /-- The place of an operand, by the number of operands. -/
  outer : Nat → Order
  /-- What is written for an operand, by the number of operands. -/
  convert : Nat → String → String
  /-- The callee and the operands together. -/
  write : String → List String → Result

namespace OperandKind

variable (k : OperandKind)

/-- The number of operands. -/
def count (b : Block) : Nat := (max (k.asked b.head.extra) (socketCount b k.start)).toNat

/-- Reads the operands in order and writes them. -/
def emitter : Emitter := fun s => do
  let callee ← k.callee s
  let operands ← numbered s k.start (k.count s.block) (k.outer (k.count s.block)) k.fallback
  return k.write callee (operands.map (k.convert (k.count s.block)))

/-- What is written for the filling of a socket, by the number of operands. -/
def operand (count : Nat) (filling : Option (String × Order)) : String :=
  k.convert count (inPlace (k.outer count) k.fallback filling)

/-- Lists of items. -/
def list : OperandKind where
  start := "ADD"
  fallback := "null"
  asked := (·.itemCount)
  callee := fun _ => return ""
  outer := fun _ => Order.comma
  convert := fun _ => id
  write := fun _ items => .value ("[" ++ Text.joinWith ", " items ++ "]") Order.atomic

/-- Texts one after the other. Up to two of them are made texts and added, more are collected in a
list. -/
def join : OperandKind where
  start := "ADD"
  fallback := "''"
  asked := (·.itemCount)
  callee := fun _ => return ""
  outer := fun count => if count ≤ 2 then Order.none else Order.comma
  convert := fun count => if count ≤ 2 then asText else id
  write := fun _ items =>
    match items with
    | [] => .value "''" Order.atomic
    | [a] => .value a Order.functionCall
    | [a, b] => .value (a ++ " + " ++ b) Order.addition
    | items => .value ("[" ++ Text.joinWith "," items ++ "].join('')") Order.functionCall

/-- Calls of procedures, whose code becomes a result in one of two ways. -/
def call (result : String → Result) : OperandKind where
  start := "ARG"
  fallback := "null"
  asked := fun extra => extra.params.length
  callee := fun s => procedureName ((s.head.written? "NAME").getD s.head.extra.name)
  outer := fun _ => Order.comma
  convert := fun _ => id
  write := fun fn arguments => result (fn ++ "(" ++ Text.joinWith ", " arguments ++ ")")

/-- The kinds with numbered operands. -/
def all : List (String × OperandKind) := [
  ("lists_create_with", list), ("text_join", join),
  ("procedures_callreturn", call fun code => .value code Order.functionCall),
  ("procedures_callnoreturn", call fun code => .statement (code ++ ";\n"))]

/-! ## Making operands texts -/

theorem asText_of_isLiteral {code : String} (h : Text.IsLiteral code) : asText code = code :=
  if_pos ((Text.isQuoted_eq_true_iff code).2 h)

theorem asText_of_not_isLiteral {code : String} (h : ¬Text.IsLiteral code) : asText code = "String(" ++ code ++ ")" :=
  if_neg fun hquoted => h ((Text.isQuoted_eq_true_iff code).1 hquoted)

/-- An operand of a join of up to two texts stays as it is where it is a literal, and anything else is converted. The
operands of a longer join are not converted. -/
theorem operand_join (count : Nat) (filling : Option (String × Order)) :
    (count ≤ 2 → ∀ code, code = inPlace Order.none "''" filling →
      (Text.IsLiteral code → join.operand count filling = code) ∧
      (¬Text.IsLiteral code → join.operand count filling = "String(" ++ code ++ ")")) ∧
    (2 < count → join.operand count filling = inPlace Order.comma "''" filling) := by
  constructor
  · rintro hcount _ rfl
    have hoperand : join.operand count filling = asText (inPlace Order.none "''" filling) := by
      simp [operand, join, hcount]
    rw [hoperand]
    exact ⟨asText_of_isLiteral, asText_of_not_isLiteral⟩
  · intro hcount
    simp [operand, join, Nat.not_le.2 hcount]

/-! ## The emitters of the kinds -/

theorem listsCreateWith_eq : listsCreateWith = list.emitter := by
  funext s
  simp [listsCreateWith, emitter, list, count, itemCount]

theorem call_eq (result : String → Result) : (fun s => do return result (← procedureCall s)) = (call result).emitter := by
  funext s
  simp [procedureCall, emitter, call, count, Site.head]

theorem textJoin_eq : textJoin = join.emitter := by
  funext s
  have hcount : join.count s.block = itemCount s.block := rfl
  have hzero : "ADD" ++ Text.ofNat 0 = "ADD0" := rfl
  have hone : "ADD" ++ Text.ofNat 1 = "ADD1" := rfl
  rw [textJoin, emitter, hcount]
  -- the four shapes in which a join is written
  split
  · rename_i h
    simp [h, numbered, join]
  · rename_i h
    simp [h, numbered, join, List.range_succ, hzero]
  · rename_i h
    simp [h, numbered, join, List.range_succ, hzero, hone]
  · rename_i n h0 h1 h2
    obtain ⟨m, hm⟩ : ∃ m, itemCount s.block = m + 3 := by
      refine ⟨itemCount s.block - 3, ?_⟩
      have h0 : itemCount s.block ≠ 0 := h0
      have h1 : itemCount s.block ≠ 1 := h1
      have h2 : itemCount s.block ≠ 2 := h2
      omega
    have hrange : List.range (m + 3) = 0 :: 1 :: 2 :: (List.range m).map (· + 3) := by
      simp [List.range_succ_eq_map, Function.comp_def]
    simp [hm, numbered, join, hrange, List.mapM_cons]

theorem lookup_standard : ∀ e ∈ all, standard.lookup e.1 = some e.2.emitter := by
  simp only [all, List.forall_mem_cons]
  refine ⟨?_, ?_, ?_, ?_, by simp⟩
  · rw [← listsCreateWith_eq]
    rfl
  · rw [← textJoin_eq]
    rfl
  · rw [← call_eq]
    rfl
  · rw [← call_eq]
    rfl

/-! ## How many operands there are -/

theorem le_foldl_max {l : List Int} {m n : Int} (h : n ≤ m ∨ n ∈ l) : n ≤ l.foldl max m := by
  induction l generalizing m with
  | nil => simpa using h
  | cons a l ih =>
    rw [List.foldl_cons]
    refine ih ?_
    rcases h with h | h
    · exact .inl (by omega)
    · rcases List.mem_cons.1 h with rfl | h
      · exact .inl (by omega)
      · exact .inr h

/-- A number in canonical digits counts as itself, as long as the next one has 64 bits. -/
theorem socketNumber_numbered {start : String} {n : Nat} (h : (n : Int) < Whole.greatest) :
    socketNumber start (start ++ Text.ofNat n) = (n : Int) + 1 := by
  rw [socketNumber, String.toList_append, Text.dropStart?_append]
  dsimp only
  rw [String.ofList_toList, Whole.ofText?_ofNat (by omega), Option.map_some, Option.getD_some]
  exact Whole.wrap_of_mem (by unfold Whole.least; omega) (by omega)

theorem lt_socketCount {b : Block} {start : String} {n : Nat} {c : Block} (h : (n : Int) < Whole.greatest)
    (hc : b.plugged? (start ++ Text.ofNat n) = some c) : (n : Int) < socketCount b start := by
  obtain ⟨s, hs, -⟩ := Option.bind_eq_some_iff.1 hc
  have hname : s.name = start ++ Text.ofNat n := by simpa using List.find?_some hs
  have hmem : (n : Int) + 1 ∈ b.sockets.map fun s => socketNumber start s.name := by
    rw [← socketNumber_numbered h, ← hname]
    exact List.mem_map_of_mem (List.mem_of_find?_eq_some hs)
  have hle := le_foldl_max (m := 0) (.inr hmem)
  unfold socketCount
  omega

/-! ## What the operands are -/

variable {k : OperandKind} {settings : PassSettings} {p q : Pass} {b : Block}

/-- An operand without code is written as the literal of its kind. -/
theorem operand_none : ∀ e ∈ all, ∀ count, e.2.operand count none = e.2.fallback := by
  have hquoted : asText "''" = "''" := asText_of_isLiteral (Text.isLiteral_quote "")
  simp only [all, List.forall_mem_cons]
  refine ⟨fun _ => rfl, fun count => ?_, fun _ => rfl, fun _ => rfl, by simp⟩
  by_cases h : count ≤ 2
  · simpa [operand, join, inPlace, h] using hquoted
  · simp [operand, join, inPlace, h]

/-- No numbered operand is lost. If the emission of a list, a join of texts or a call of a procedure
succeeds, its operands are what fills the numbered sockets one after the other, each as it is written
in its place, or the literal of the kind where no code comes of the socket. There are at least as many
as the mutator asks for, and more than the number of any socket that holds a block. An operand that is
not the literal is the code of the block in its socket, which is not a disabled one. -/
theorem emit_operands {kind : String} (hk : (kind, k) ∈ all) (hkind : b.head.kind = kind)
    (henabled : b.head.disabled = false) {thisOnly : Bool} {r : Result}
    (h : (b.emit standard thisOnly).run settings p = (.ok r, q)) :
    ∃ callee fillings p₁ p₂,
      (k.callee (b.site standard)).run settings p = (.ok callee, p₁) ∧
      Threaded (fun n => b.Filling standard settings (k.start ++ Text.ofNat n)) (List.range fillings.length) p₁
        fillings p₂ ∧
      ((b.site standard).completed thisOnly
        (k.write callee (fillings.map (k.operand fillings.length)))).run settings p₂ = (.ok r, q) ∧
      k.operand fillings.length none = k.fallback ∧
      k.asked b.head.extra ≤ fillings.length ∧
      (∀ (n : Nat) c, (n : Int) < Whole.greatest → b.plugged? (k.start ++ Text.ofNat n) = some c →
        n < fillings.length) ∧
      ∀ n code order, fillings[n]? = some (some (code, order)) → ∃ c p' q',
        b.plugged? (k.start ++ Text.ofNat n) = some c ∧ (c.Chained → c.head.disabled = false) ∧
        code ≠ "" ∧ (c.emit standard false).run settings p' = (.ok (.value code order), q') := by
  rw [Block.emit_of_enabled henabled] at h
  obtain ⟨emitter, own, p₂, hfound, hown, hr⟩ := Site.exists_of_run_emit_completed h
  have hemitter : emitter = k.emitter := by
    have hstandard := lookup_standard _ hk
    rw [← hkind] at hstandard
    exact Option.some.inj (hfound.symm.trans hstandard)
  subst hemitter
  -- what is called comes first, then the operands, read socket by socket
  obtain ⟨callee, p₁, hcallee, hoperands⟩ := Emit.run_bind_eq_ok_iff.1 hown
  obtain ⟨operands, p₃, hread, hpure⟩ := Emit.run_bind_eq_ok_iff.1 hoperands
  obtain ⟨rfl, rfl⟩ := Emit.run_pure_eq_ok_iff.1 hpure
  obtain ⟨fillings, hfillings, rfl⟩ := Block.exists_fillings (run_mapM_eq_ok_iff.1 hread)
  have hlength : fillings.length = k.count b := by
    rw [hfillings.length, List.length_range]
    rfl
  have hcount : k.count (b.site standard).block = fillings.length := hlength.symm
  rw [hcount] at hfillings hr
  refine ⟨callee, fillings, p₁, p₂, hcallee, hfillings, ?_, operand_none _ hk _, ?_, fun n c hn hc => ?_,
    fun n code order hn => ?_⟩
  · rw [List.map_map] at hr
    exact hr
  · rw [hlength, count]
    omega
  · have hlt := lt_socketCount hn hc
    rw [hlength, count]
    omega
  · have hmem : n < fillings.length := (List.getElem?_eq_some_iff.1 hn).1
    obtain ⟨filling, p', q', hfilling, hsocket⟩ := hfillings.getElem (List.getElem?_range hmem)
    obtain rfl := Option.some.inj (hn.symm.trans hfilling)
    cases hsocket with
    | @code c _ _ _ _ hplugged hrun hne =>
      refine ⟨c, p', q', hplugged, fun hchained => ?_, hne, hrun⟩
      cases hdisabled : c.head.disabled with
      | false => rfl
      | true =>
        have hnone := (Block.Filling.code hplugged hrun hne).eq_none_of_disabled hplugged hdisabled hchained
        cases hnone

/-- A truth value in a value socket. -/
def falsehood : Block := ⟨{ kind := "logic_boolean", link := .value }, [], none⟩

/-- A join with a negative count and one operand, far behind. -/
def gappedJoin : Block :=
  ⟨{ kind := "text_join", extra := { itemCount := -1 } }, [⟨"ADD2", .value, some falsehood⟩], none⟩

/-- The join has three operands, the first two of them the literal. -/
theorem emit_gappedJoin : (gappedJoin.emit standard true).run {} { names := {} } =
      (.ok (.value "['','',false].join('')" Order.functionCall), { names := {} }) ∧
    ∃ fillings : List (Option (String × Order)), 2 < fillings.length ∧
      join.operand fillings.length none = "''" := by
  have hrun : (gappedJoin.emit standard true).run {} { names := {} } =
      (.ok (.value "['','',false].join('')" Order.functionCall), { names := {} }) := rfl
  have hk : ("text_join", join) ∈ all := by simp [all]
  obtain ⟨callee, fillings, p₁, p₂, -, -, -, hnone, -, hkept, -⟩ := emit_operands hk rfl rfl hrun
  exact ⟨hrun, fillings, hkept 2 falsehood (by decide) rfl, hnone⟩

end OperandKind
end Blockwright
