import Blockwright.Proofs.Emit.Ends
import Blockwright.Workspace.Basic
/-!
# Blocks as trees

A block holds what is plugged into its sockets and what is chained behind it. Its descendants are
listed by `Block.blocks`, and what holds for a block whenever it holds for all that the block holds
is true of every block. The site of a block has a plug for each block that it holds.
-/

namespace Blockwright

/-! ## Blocks in blocks -/

namespace Block

theorem mem_socketBlocks {sockets : List Socket} {b : Block} :
    b ∈ socketBlocks sockets ↔ ∃ s ∈ sockets, ∃ c, s.plugged = some c ∧ b ∈ c.blocks := by
  induction sockets with
  | nil => simp [socketBlocks]
  | cons s sockets ih =>
    obtain ⟨name, kind, _ | c⟩ := s
    · simp [socketBlocks, ih]
    · simp [socketBlocks, ih]

theorem mem_nextBlocks {next : Option Block} {b : Block} :
    b ∈ nextBlocks next ↔ ∃ c, next = some c ∧ b ∈ c.blocks := by
  cases next with
  | none => simp [nextBlocks]
  | some c => simp [nextBlocks]

/-- A block of the tree is its root, or a block of what is plugged into the root or chained
behind it. -/
theorem mem_blocks {root b : Block} : b ∈ root.blocks ↔
    b = root ∨ (∃ s ∈ root.sockets, ∃ c, s.plugged = some c ∧ b ∈ c.blocks) ∨
      ∃ c, root.next = some c ∧ b ∈ c.blocks := by
  obtain ⟨head, sockets, next⟩ := root
  rw [blocks, List.mem_cons, List.mem_append, mem_socketBlocks, mem_nextBlocks]

theorem mem_blocks_self (b : Block) : b ∈ b.blocks := mem_blocks.2 (.inl rfl)

/-- The block holds another one in a socket or behind it. -/
def Holds (b c : Block) : Prop := (∃ s ∈ b.sockets, s.plugged = some c) ∨ b.next = some c

theorem Holds.mem_blocks {b c d : Block} (h : b.Holds c) (hd : d ∈ c.blocks) : d ∈ b.blocks := by
  rcases h with ⟨s, hs, hc⟩ | hc
  · exact Block.mem_blocks.2 (.inr (.inl ⟨s, hs, c, hc, hd⟩))
  · exact Block.mem_blocks.2 (.inr (.inr ⟨c, hc, hd⟩))

mutual

/-- What holds of a block when it holds of all that the block holds is true of every block. -/
theorem inductionOn {motive : Block → Prop} (h : ∀ b, (∀ c, b.Holds c → motive c) → motive b) : ∀ b, motive b
  | ⟨head, sockets, next⟩ => by
    refine h _ fun c hc => ?_
    rcases hc with ⟨s, hs, hc⟩ | hc
    · exact inductionOnSockets h sockets s hs c hc
    · exact inductionOnNext h next c hc

theorem inductionOnSockets {motive : Block → Prop} (h : ∀ b, (∀ c, b.Holds c → motive c) → motive b) :
    ∀ sockets : List Socket, ∀ s ∈ sockets, ∀ c, s.plugged = some c → motive c
  | [], _, hs, _, _ => by cases hs
  | ⟨_, _, none⟩ :: rest, s, hs, c, hc => by
    rcases List.mem_cons.1 hs with rfl | hs
    · cases hc
    · exact inductionOnSockets h rest s hs c hc
  | ⟨_, _, some b⟩ :: rest, s, hs, c, hc => by
    rcases List.mem_cons.1 hs with rfl | hs
    · cases hc
      exact inductionOn h b
    · exact inductionOnSockets h rest s hs c hc

theorem inductionOnNext {motive : Block → Prop} (h : ∀ b, (∀ c, b.Holds c → motive c) → motive b) :
    ∀ next : Option Block, ∀ c, next = some c → motive c
  | none, _, hc => by cases hc
  | some b, c, hc => by
    cases hc
    exact inductionOn h b

end

theorem mem_blocks_trans {root b c : Block} (hb : b ∈ root.blocks) (hc : c ∈ b.blocks) : c ∈ root.blocks := by
  induction root using inductionOn with
  | h root ih =>
    rcases mem_blocks.1 hb with rfl | ⟨s, hs, d, hd, hb⟩ | ⟨d, hd, hb⟩
    · exact hc
    · exact Holds.mem_blocks (.inl ⟨s, hs, hd⟩) (ih d (.inl ⟨s, hs, hd⟩) hb)
    · exact Holds.mem_blocks (.inr hd) (ih d (.inr hd) hb)

/-! ## Sites of blocks -/

variable {emitters : Emitters}

theorem emit_eq (b : Block) (thisOnly : Bool) : b.emit emitters thisOnly =
    if b.head.disabled then (if thisOnly then return .handled else emitNext emitters b.next)
    else (b.site emitters).emit emitters thisOnly := by
  obtain ⟨head, sockets, next⟩ := b
  rw [emit, site]

theorem mem_plugs {sockets : List Socket} {name : String} {plug : Plug}
    (h : (name, some plug) ∈ plugs emitters sockets) :
    ∃ s ∈ sockets, s.name = name ∧ s.plugged = some plug.block ∧ plug.emit = plug.block.emit emitters false := by
  induction sockets with
  | nil => cases h
  | cons s rest ih =>
    obtain ⟨name', kind, _ | b⟩ := s
    · rcases List.mem_cons.1 h with he | h
      · cases he
      · obtain ⟨s, hs, hrest⟩ := ih h
        exact ⟨s, List.mem_cons_of_mem _ hs, hrest⟩
    · rcases List.mem_cons.1 h with he | h
      · cases he
        exact ⟨_, List.mem_cons_self, rfl, rfl, rfl⟩
      · obtain ⟨s, hs, hrest⟩ := ih h
        exact ⟨s, List.mem_cons_of_mem _ hs, hrest⟩

theorem plug?_site {b : Block} {socket : String} {plug : Plug} (h : (b.site emitters).plug? socket = some plug) :
    ∃ s ∈ b.sockets, s.name = socket ∧ s.plugged = some plug.block ∧
      plug.emit = plug.block.emit emitters false :=
  mem_plugs (mem_of_lookup (Option.join_eq_some_iff.1 h))

/-- The first socket of a name decides, as it does when the block is read. -/
theorem plug?_site_eq (b : Block) (socket : String) : (b.site emitters).plug? socket =
    (b.plugged? socket).map fun c => { block := c, emit := c.emit emitters false } := by
  have hsockets : ∀ sockets : List Socket, ((plugs emitters sockets).lookup socket).join =
      ((sockets.find? fun s => s.name = socket).bind (·.plugged)).map fun c =>
        { block := c, emit := c.emit emitters false } := by
    intro sockets
    induction sockets with
    | nil => rfl
    | cons s rest ih =>
      obtain ⟨name, kind, _ | c⟩ := s <;> rw [plugs, List.lookup_cons, List.find?_cons] <;>
      · by_cases hname : socket = name
        · simp [hname]
        · have hno : (socket == name) = false := beq_eq_false_iff_ne.2 hname
          have hno' : ¬ name = socket := Ne.symm hname
          simpa only [hno, hno', decide_false] using ih
  exact hsockets b.sockets

theorem next_site {b : Block} {plug : Plug} (h : (b.site emitters).next = some plug) :
    b.next = some plug.block ∧ plug.emit = plug.block.emit emitters false := by
  obtain ⟨head, sockets, _ | c⟩ := b
  · cases h
  · cases h
    exact ⟨rfl, rfl⟩

end Block
end Blockwright
