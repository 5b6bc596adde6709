import Blockwright.Proofs.Emit.Outcomes
import Blockwright.Proofs.Sockets.Kinds
/-!
# Which sockets an emitter reads, and how

An emitter that reads a socket for a value refuses a statement in it, and one that reads it for
statements refuses a value; each names the block that it refuses. So what an emitter reads shows
when its sockets give fixed results. It then reads what the table names for its kind.
-/

namespace Blockwright

/-- Whether a socket of a kind refuses a result. -/
def SocketKind.Refuses : SocketKind → Result → Prop
  | .value, r => ∃ code, r = .statement code
  | .statement, r => ∃ code order, r = .value code order

/-- How a socket of a kind refuses a result. -/
def SocketKind.refusal : SocketKind → Cause
  | .value => .expectedValue
  | .statement => .expectedStatement

/-- The sockets of a kind that are read in one of the two ways. -/
def KindSockets.names (k : KindSockets) : SocketKind → List SocketName
  | .value => k.values
  | .statement => k.statements

/-- The site of a block whose sockets give fixed results. -/
def Block.answering (b : Block) (answer : String → Result) : Site where
  block := b
  plugs := b.sockets.map fun s => (s.name, s.plugged.map fun c => ⟨c, pure (answer s.name)⟩)
  next := none

namespace Emit

/-- The emitter of a kind can read a socket for a value, or for statements: at some block of the
kind it refuses what the socket gives, and names the block that is plugged in there, which no
other socket holds. -/
def ReadsAs (how : SocketKind) (kind socket : String) : Prop :=
  ∃ emitter, standard.lookup kind = some emitter ∧
    ∃ (b c : Block) (answer : String → Result) (settings : PassSettings) (p : Pass),
      b.head.kind = kind ∧ b.plugged? socket = some c ∧
      (∀ socket' c', socket' ≠ socket → b.plugged? socket' = some c' → c'.name ≠ c.name) ∧
      how.Refuses (answer socket) ∧
      ((emitter (b.answering answer)).run settings p).1 = .error ⟨how.refusal, some c.name⟩

variable {settings : PassSettings} {α β : Type}

theorem plug?_answering (b : Block) (answer : String → Result) (socket : String) :
    (b.answering answer).plug? socket = (b.plugged? socket).map fun c => ⟨c, pure (answer socket)⟩ := by
  simp only [Site.plug?, Block.answering, Block.plugged?, Block.socket?]
  induction b.sockets with
  | nil => rfl
  | cons s sockets ih =>
    rw [List.map_cons, Entries.lookup_cons_eq, List.find?_cons]
    by_cases hs : s.name = socket
    · simp [hs]
    · simpa [hs, Ne.symm hs] using ih

/-! ## The table is complete -/

/-- A block is refused in a socket only where the table names that socket. -/
theorem fits_of_readsAs {how : SocketKind} {kind socket : String} (h : ReadsAs how kind socket) :
    ∃ k ∈ KindSockets.standard, k.kind = kind ∧ ∃ name ∈ k.names how, name.Fits socket := by
  obtain ⟨emitter, hemitter, b, c, answer, settings, p, -, hc, hothers, -, hrun⟩ := h
  obtain ⟨k, hk, hkind, hreads⟩ := reads_of_lookup hemitter
  refine ⟨k, hk, hkind, ?_⟩
  -- whoever is refused for being in the socket stands in a socket that the table names
  let E : Failure → Prop := fun f =>
    ∀ how : SocketKind, f = ⟨how.refusal, some c.name⟩ → ∃ name ∈ k.names how, name.Fits socket
  have hplug : ∀ socket' plug, (b.answering answer).plug? socket' = some plug →
      b.plugged? socket' = some plug.block ∧ plug.emit = pure (answer socket') := by
    intro socket' plug hp
    rw [plug?_answering] at hp
    obtain ⟨c', hc', rfl⟩ := Option.map_eq_some_iff.1 hp
    exact ⟨hc', rfl⟩
  have hnamed : ∀ socket' plug, (b.answering answer).plug? socket' = some plug → plug.block.name = c.name →
      socket' = socket := by
    intro socket' plug hp hname
    by_contra hne
    exact hothers socket' _ hne (hplug socket' plug hp).1 hname
  have hbounds : Bounds settings (fun _ => True) E (b.answering answer)
      (.standard (b.answering answer) k.values k.statements) := by
    constructor
    case demand => exact fun _ _ _ _ => trivial
    case fail =>
      rintro f ⟨cause, rfl, -⟩ how hf
      cases hf
    case value =>
      intro socket' outer hname
      refine .value fun plug hp => ?_
      rw [(hplug socket' plug hp).2]
      refine .pure fun code _ how hf => ?_
      obtain ⟨hcause, hblock⟩ := Failure.mk.inj hf
      cases how with
      | value => exact hnamed socket' plug hp (Option.some.inj hblock) ▸ hname
      | statement => cases hcause
    case statements =>
      intro socket' hname
      refine .statements fun plug hp => ?_
      rw [(hplug socket' plug hp).2]
      refine .pure fun code order _ how hf => ?_
      obtain ⟨hcause, hblock⟩ := Failure.mk.inj hf
      cases how with
      | value => cases hcause
      | statement => exact hnamed socket' plug hp (Option.some.inj hblock) ▸ hname
    case nextCode => exact .nextCode (by rintro plug ⟨⟩)
    case plugged =>
      intro socket' plug hp
      rw [(hplug socket' plug hp).2]
      exact .pure trivial
    case chained => rintro plug ⟨⟩
  have hall := ((hreads (b.answering answer)).within.outcome hbounds p trivial).2
  rw [hrun] at hall
  exact hall how rfl

/-! ## Numbered sockets -/

/-- The action refuses what it reads, whatever the pass. -/
def Refused (settings : PassSettings) (f : Failure) (x : Emit α) : Prop :=
  Outcome settings (fun _ => True) (fun _ => False) (· = f) x

/-- The action refuses nothing else. -/
def Harmless (settings : PassSettings) (f : Failure) (x : Emit α) : Prop :=
  Outcome settings (fun _ => True) (fun _ => True) (· = f) x

theorem Refused.bind {f : Failure} {x : Emit α} (hx : Refused settings f x) (k : α → Emit β) :
    Refused settings f (x >>= k) :=
  Outcome.bind hx fun _ h => h.elim

theorem Harmless.bind {f : Failure} {x : Emit α} {k : α → Emit β} (hx : Harmless settings f x)
    (hk : ∀ a, Harmless settings f (k a)) : Harmless settings f (x >>= k) :=
  Outcome.bind hx fun a _ => hk a

theorem Harmless.refused {f : Failure} {x : Emit α} {k : α → Emit β} (hx : Harmless settings f x)
    (hk : ∀ a, Refused settings f (k a)) : Refused settings f (x >>= k) :=
  Outcome.bind hx fun a _ => hk a

theorem refused_mapM {f : Failure} {k : α → Emit β} {as : List α} {a : α} (ha : a ∈ as)
    (hk : ∀ a, Harmless settings f (k a)) (hrefused : Refused settings f (k a)) :
    Refused settings f (as.mapM k) := by
  induction as with
  | nil => cases ha
  | cons a' as ih =>
    rw [List.mapM_cons]
    rcases List.mem_cons.1 ha with rfl | ha
    · exact hrefused.bind _
    · exact (hk a').refused fun _ => (ih ha).bind _

/-- A block to be refused. -/
def refusedBlock : Block := ⟨{ kind := "" }, [], none⟩

end Emit

namespace SocketKind

/-- A result that a socket of a kind refuses. -/
def refused : SocketKind → Result
  | .value => .statement ""
  | .statement => .value "" Order.atomic

/-- How a socket of a kind refuses `Emit.refusedBlock`. -/
def complaint (how : SocketKind) : Failure := ⟨how.refusal, some Emit.refusedBlock.name⟩

theorem refuses_refused (how : SocketKind) : how.Refuses how.refused := by
  cases how with
  | value => exact ⟨"", rfl⟩
  | statement => exact ⟨"", Order.atomic, rfl⟩

end SocketKind

namespace Emit

/-- The site of a block that has one socket, which gives what a reader of a kind refuses. -/
def probe (head : Head) (socket : String) (how : SocketKind) : Site :=
  (Block.mk head [⟨socket, how, some refusedBlock⟩] none).answering fun _ => how.refused

section
variable {head : Head} {socket : String} {how : SocketKind}

theorem plug?_probe (x : String) : (probe head socket how).plug? x =
    if socket = x then some ⟨refusedBlock, pure how.refused⟩ else none := by
  rw [probe, plug?_answering, Block.plugged?, Block.socket?, List.find?_singleton]
  by_cases hx : socket = x
  · simp [hx]
  · simp [hx]

/-- An emitter that refuses what the socket of a probe gives reads that socket. -/
theorem readsAs_of_refused (head : Head) {emitter : Emitter} (hemitter : standard.lookup head.kind = some emitter)
    (h : Refused {} how.complaint (emitter (probe head socket how))) : ReadsAs how head.kind socket := by
  refine ⟨emitter, hemitter, ⟨head, [⟨socket, how, some refusedBlock⟩], none⟩, refusedBlock, fun _ => how.refused, {},
    { names := {} }, rfl, ?_, ?_, how.refuses_refused, ?_⟩
  · simp [Block.plugged?, Block.socket?]
  · intro socket' c' hne hc'
    simp [Block.plugged?, Block.socket?, hne.symm] at hc'
  · have hrun := (h { names := {} } trivial).2
    cases hresult : ((emitter (probe head socket how)).run {} { names := {} }).1 with
    | ok r' => rw [hresult] at hrun; exact hrun.elim
    | error f =>
      rw [hresult] at hrun
      exact hresult.trans (congrArg Except.error hrun)

theorem harmless_valueOr (x : String) (outer : Order) (fallback : String) :
    Harmless settings how.complaint ((probe head socket how).valueOr x outer fallback) := by
  refine Harmless.bind (.value fun plug hp => ?_) fun _ => .pure trivial
  rw [plug?_probe] at hp
  split_ifs at hp
  cases hp
  refine .pure fun code hcode => ?_
  cases how with
  | value => rfl
  | statement => cases hcode

theorem harmless_statements (x : String) :
    Harmless settings how.complaint ((probe head socket how).statements x) := by
  refine .statements fun plug hp => ?_
  rw [plug?_probe] at hp
  split_ifs at hp
  cases hp
  refine .pure fun code order hcode => ?_
  cases how with
  | value => cases hcode
  | statement => rfl

theorem refused_valueOr (outer : Order) (fallback : String) :
    Refused settings SocketKind.value.complaint ((probe head socket .value).valueOr socket outer fallback) := by
  have hvalue : Refused settings SocketKind.value.complaint ((probe head socket .value).value socket outer) := by
    unfold Site.value
    rw [plug?_probe, if_pos rfl]
    refine Outcome.bind (Q := (· = .statement "")) (.pure rfl) ?_
    rintro r rfl
    exact .failIn rfl
  exact hvalue.bind _

theorem refused_statements :
    Refused settings SocketKind.statement.complaint ((probe head socket .statement).statements socket) := by
  unfold Site.statements
  rw [plug?_probe, if_pos rfl]
  refine Outcome.bind (Q := (· = .value "" Order.atomic)) (.pure rfl) ?_
  rintro r rfl
  exact .failIn rfl

theorem harmless_ifBranch (n : Nat) : Harmless settings how.complaint (ifBranch (probe head socket how) n) := by
  refine (harmless_valueOr _ _ _).bind fun condition => ?_
  exact (harmless_statements _).bind fun body => .pure trivial

theorem refused_numbered {start : String} {n count : Nat} (hn : n < count) (order : Order) (fallback : String) :
    Refused settings SocketKind.value.complaint
      (numbered (probe head (start ++ Text.ofNat n) .value) start count order fallback) := by
  refine refused_mapM (List.mem_range.2 hn) (fun i => ?_) ?_
  · exact harmless_valueOr _ _ _
  · exact refused_valueOr _ _

theorem lt_branchCount {n : Nat} (hn : head.extra.elseIfCount = n) : n < branchCount (probe head socket how) := by
  have hbase : (probe head socket how).head.extra.elseIfCount = n := hn
  unfold branchCount
  rw [hbase]
  dsimp only
  omega

theorem lt_itemCount {n : Nat} (hn : head.extra.itemCount = (n : Int) + 1) :
    n < itemCount (probe head socket how).block := by
  have hcount : (probe head socket how).block.head.extra.itemCount = (n : Int) + 1 := hn
  unfold itemCount
  rw [hcount]
  omega

end

/-- Both kinds of if read every condition for a value. -/
theorem readsAs_if {kind : String} (hkind : standard.lookup kind = some controlsIf) (n : Nat) :
    ReadsAs .value kind ("IF" ++ Text.ofNat n) := by
  refine readsAs_of_refused { kind, extra := { elseIfCount := n } } hkind ?_
  refine Refused.bind (refused_mapM (List.mem_range.2 (lt_branchCount (n := n) rfl)) harmless_ifBranch ?_) _
  exact (refused_valueOr _ _).bind _

/-- Both kinds of if read every branch for statements. -/
theorem readsAs_do {kind : String} (hkind : standard.lookup kind = some controlsIf) (n : Nat) :
    ReadsAs .statement kind ("DO" ++ Text.ofNat n) := by
  refine readsAs_of_refused { kind, extra := { elseIfCount := n } } hkind ?_
  refine Refused.bind (refused_mapM (List.mem_range.2 (lt_branchCount (n := n) rfl)) harmless_ifBranch ?_) _
  exact (harmless_valueOr _ _ _).refused fun _ => refused_statements.bind _

/-- The kind that makes a list reads every item for a value. -/
theorem readsAs_item (n : Nat) : ReadsAs .value "lists_create_with" ("ADD" ++ Text.ofNat n) := by
  refine readsAs_of_refused { kind := "lists_create_with", extra := { itemCount := n + 1 } } rfl ?_
  exact (refused_numbered (lt_itemCount rfl) _ _).bind _

/-- The kind that joins texts reads every item for a value. -/
theorem readsAs_joined (n : Nat) : ReadsAs .value "text_join" ("ADD" ++ Text.ofNat n) := by
  let head : Head := { kind := "text_join", extra := { itemCount := n + 1 } }
  have hn : n < itemCount (probe head ("ADD" ++ Text.ofNat n) .value).block := lt_itemCount rfl
  refine readsAs_of_refused head rfl ?_
  unfold textJoin
  split
  · omega
  · obtain rfl : n = 0 := by omega
    exact (refused_valueOr _ _).bind _
  · obtain rfl | rfl : n = 0 ∨ n = 1 := by omega
    · exact (refused_valueOr _ _).bind _
    · refine (harmless_valueOr _ _ _).refused fun _ => ?_
      exact (refused_valueOr _ _).bind _
  · exact (refused_numbered hn _ _).bind _

theorem refused_procedureCall {kind : String} (n : Nat) : Refused settings SocketKind.value.complaint
    (procedureCall (probe { kind, extra := { params := List.replicate (n + 1) {} } } ("ARG" ++ Text.ofNat n) .value)) := by
  refine Harmless.refused (.demand (d := .call (.name _ .procedure)) fun _ _ => trivial) fun fn => ?_
  refine (refused_numbered ?_ _ _).bind _
  simp only [probe, Block.answering, Site.head, List.length_replicate, Int.lt_toNat]
  omega

/-- A call whose result is used reads every argument for a value. -/
theorem readsAs_argument (n : Nat) : ReadsAs .value "procedures_callreturn" ("ARG" ++ Text.ofNat n) := by
  let head : Head := { kind := "procedures_callreturn", extra := { params := List.replicate (n + 1) {} } }
  exact readsAs_of_refused head rfl ((refused_procedureCall n).bind _)

/-- A call that is a statement reads every argument for a value. -/
theorem readsAs_statementArgument (n : Nat) :
    ReadsAs .value "procedures_callnoreturn" ("ARG" ++ Text.ofNat n) := by
  let head : Head := { kind := "procedures_callnoreturn", extra := { params := List.replicate (n + 1) {} } }
  exact readsAs_of_refused head rfl ((refused_procedureCall n).bind _)

end Emit
end Blockwright
