import Blockwright.Emit.Site
import Blockwright.Proofs.Text.CommentLines
import Blockwright.Proofs.Workspace.Trees
/-!
# Blocks with other heads

A tree of blocks keeps its shape when the heads of all its blocks are changed in one way. What reads
the shape only, or the part of the heads that is not changed, gives the same for both.
-/

namespace Blockwright

namespace Block

mutual

/-- A tree of blocks with the heads changed. -/
def mapHead (f : Head → Head) : Block → Block
  | ⟨head, sockets, next⟩ => ⟨f head, mapSockets f sockets, mapNext f next⟩

/-- What is plugged into sockets, with the heads changed. -/
def mapSockets (f : Head → Head) : List Socket → List Socket
  | [] => []
  | ⟨name, kind, none⟩ :: rest => ⟨name, kind, none⟩ :: mapSockets f rest
  | ⟨name, kind, some b⟩ :: rest => ⟨name, kind, some (mapHead f b)⟩ :: mapSockets f rest

/-- What is chained behind a block, with the heads changed. -/
def mapNext (f : Head → Head) : Option Block → Option Block
  | none => none
  | some b => some (mapHead f b)

end

variable {f : Head → Head}

theorem head_mapHead (f : Head → Head) (b : Block) : (b.mapHead f).head = f b.head := by
  obtain ⟨head, sockets, next⟩ := b
  rw [mapHead]

theorem sockets_mapHead (f : Head → Head) (b : Block) : (b.mapHead f).sockets = mapSockets f b.sockets := by
  obtain ⟨head, sockets, next⟩ := b
  rw [mapHead]

theorem next_mapHead (f : Head → Head) (b : Block) : (b.mapHead f).next = b.next.map (mapHead f) := by
  obtain ⟨head, sockets, _ | c⟩ := b <;> rw [mapHead, mapNext] <;> rfl

theorem names_mapSockets (f : Head → Head) (sockets : List Socket) :
    (mapSockets f sockets).map (·.name) = sockets.map (·.name) := by
  induction sockets with
  | nil => rfl
  | cons s rest ih => obtain ⟨name, kind, _ | c⟩ := s <;> simp [mapSockets, ih]

theorem blocks_mapSockets {sockets : List Socket}
    (h : ∀ s ∈ sockets, ∀ c, s.plugged = some c → (c.mapHead f).blocks = c.blocks.map (mapHead f)) :
    socketBlocks (mapSockets f sockets) = (socketBlocks sockets).map (mapHead f) := by
  induction sockets with
  | nil => rfl
  | cons s rest ih =>
    obtain ⟨hs, hrest⟩ := List.forall_mem_cons.1 h
    obtain ⟨name, kind, _ | c⟩ := s
    · exact ih hrest
    · rw [mapSockets, socketBlocks, socketBlocks, ih hrest, hs c rfl, List.map_append]

/-- The blocks of the changed tree, one for each block of the tree. -/
theorem blocks_mapHead (f : Head → Head) (b : Block) : (b.mapHead f).blocks = b.blocks.map (mapHead f) := by
  induction b using inductionOn with
  | h b ih =>
    obtain ⟨head, sockets, next⟩ := b
    have hsockets := blocks_mapSockets fun s hs c hc => ih c (.inl ⟨s, hs, hc⟩)
    have hnext : nextBlocks (mapNext f next) = (nextBlocks next).map (mapHead f) := by
      cases next with
      | none => rfl
      | some c => exact ih c (.inr rfl)
    rw [mapHead, blocks, blocks, hsockets, hnext, List.map_cons, List.map_append, mapHead]

/-! ## Comments -/

theorem commentary_ownComment (b : Block) : Text.Commentary (ownComment b) := by
  unfold ownComment
  split
  · exact Text.commentary_empty
  · exact Text.commentary_prefixLines _

theorem commentary_nestedComment (b : Block) : Text.Commentary (nestedComment b) := by
  unfold nestedComment
  extract_lets comments
  split
  · exact Text.commentary_empty
  · exact Text.commentary_prefixLines _

theorem commentary_socketComments (sockets : List Socket) : Text.Commentary (socketComments sockets) := by
  induction sockets with
  | nil => exact Text.commentary_empty
  | cons s rest ih =>
    obtain ⟨name, _ | _, _ | c⟩ := s
    · exact ih
    · exact (commentary_nestedComment c).append ih
    · exact ih
    · exact ih

/-- What stands in front of a block's code is comment lines. -/
theorem commentary_commentLines (b : Block) : Text.Commentary (commentLines b) := by
  unfold commentLines
  split
  · exact Text.commentary_empty
  · exact (commentary_ownComment b).append (commentary_socketComments b.sockets)

theorem comments_mapHead (f : Head → Head) (b : Block) :
    (b.mapHead f).blocks.map (·.head.comment) = b.blocks.map fun c => (f c.head).comment := by
  rw [blocks_mapHead, List.map_map]
  exact List.map_congr_left fun c _ => congrArg Head.comment (head_mapHead f c)

section Kept
variable (hcomment : ∀ h, (f h).comment = h.comment) (hlink : ∀ h, (f h).link = h.link)
include hcomment

theorem socketComments_of_kept (sockets : List Socket) :
    socketComments (mapSockets f sockets) = socketComments sockets := by
  induction sockets with
  | nil => rfl
  | cons s rest ih =>
    obtain ⟨name, _ | _, _ | c⟩ := s
    · exact ih
    · have hnested : nestedComment (c.mapHead f) = nestedComment c := by
        rw [nestedComment, nestedComment, comments_mapHead]
        simp only [hcomment]
      rw [mapSockets, socketComments, socketComments, ih, hnested]
    · exact ih
    · exact ih

include hlink

/-- Heads changed elsewhere leave the comments as they are. -/
theorem commentLines_of_kept (b : Block) : commentLines (b.mapHead f) = commentLines b := by
  rw [commentLines, commentLines, ownComment, ownComment, sockets_mapHead, socketComments_of_kept hcomment, head_mapHead,
    hcomment, Head.outputConnected, Head.outputConnected, hlink]

end Kept

section Dropped
variable (hcomment : ∀ h, (f h).comment = "")
include hcomment

theorem socketComments_of_dropped (sockets : List Socket) : socketComments (mapSockets f sockets) = "" := by
  induction sockets with
  | nil => rfl
  | cons s rest ih =>
    obtain ⟨name, _ | _, _ | c⟩ := s
    · exact ih
    · have hnested : nestedComment (c.mapHead f) = "" := by
        rw [nestedComment, comments_mapHead]
        simp [hcomment]
      rw [mapSockets, socketComments, ih, hnested]
      rfl
    · exact ih
    · exact ih

/-- Blocks without comments have no comment lines. -/
theorem commentLines_of_dropped (b : Block) : commentLines (b.mapHead f) = "" := by
  rw [commentLines, ownComment, sockets_mapHead, socketComments_of_dropped hcomment, head_mapHead, hcomment]
  split <;> rfl

end Dropped

end Block

/-! ## Workspaces -/

namespace Workspace

/-- A workspace with the heads of all its blocks changed. -/
def mapHead (f : Head → Head) (ws : Workspace) : Workspace := { ws with top := ws.top.map (Block.mapHead f) }

variable {f : Head → Head}

theorem blocks_mapHead (f : Head → Head) (ws : Workspace) :
    (ws.mapHead f).blocks = ws.blocks.map (Block.mapHead f) := by
  rw [blocks, blocks, mapHead, List.flatMap_map, List.map_flatMap]
  exact congrArg (List.flatMap · ws.top) (funext fun b => Block.blocks_mapHead f b)

/-- What is gathered from the blocks is the same when every block gives the same. -/
theorem flatMap_blocks_mapHead {α : Type} {ws : Workspace} {gather gather' : Block → List α}
    (h : ∀ b ∈ ws.blocks, gather' (b.mapHead f) = gather b) :
    (ws.mapHead f).blocks.flatMap gather' = ws.blocks.flatMap gather := by
  rw [blocks_mapHead, List.flatMap_map]
  exact List.flatMap_congr h

theorem developerVariables_mapHead {ws : Workspace}
    (h : ∀ b ∈ ws.blocks, (f b.head).developerVariables = b.head.developerVariables) :
    (ws.mapHead f).developerVariables = ws.developerVariables := by
  have hnames : (ws.mapHead f).blocks.flatMap (·.head.developerVariables) =
      ws.blocks.flatMap (·.head.developerVariables) :=
    flatMap_blocks_mapHead fun b hb => (congrArg Head.developerVariables (Block.head_mapHead f b)).trans (h b hb)
  rw [developerVariables, developerVariables, hnames]

theorem usedVariables_mapHead {ws : Workspace} (hfields : ∀ h, (f h).fields = h.fields)
    (hextra : ∀ h, (f h).extra = h.extra) : (ws.mapHead f).usedVariables = ws.usedVariables := by
  have huses : (ws.mapHead f).blocks.flatMap (ws.mapHead f).blockUses = ws.blocks.flatMap ws.blockUses := by
    refine flatMap_blocks_mapHead fun b _ => ?_
    rw [blockUses, blockUses, Block.head_mapHead, hfields, hextra]
    rfl
  rw [usedVariables, usedVariables, huses]

end Workspace

end Blockwright
