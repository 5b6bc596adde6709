import Blockwright.Proofs.Workspace.Members
import Blockwright.Proofs.Workspace.Shown
/-!
# What documents decode to

A document that is accepted gives a forest. Every block that can be reached from the top hangs from
one place, remembers it and belongs to the workspace, and walking the forest lists every block once,
each before what it holds.
-/

namespace Blockwright

theorem Block.socketBlocks_eq (sockets : List Socket) :
    socketBlocks sockets = (sockets.filterMap (·.plugged)).flatMap blocks := by
  induction sockets with
  | nil => rfl
  | cons s rest ih =>
    obtain ⟨name, kind, _ | b⟩ := s
    · rw [socketBlocks, ih]
      rfl
    · rw [socketBlocks, ih]
      rfl

/-- A block is listed before what is plugged into it, and that before what is chained behind. -/
theorem Block.blocks_eq (b : Block) : b.blocks = b :: (b.children ++ b.next.toList).flatMap blocks := by
  obtain ⟨head, sockets, _ | c⟩ := b
  · rw [blocks, socketBlocks_eq, List.flatMap_append]
    rfl
  · rw [blocks, socketBlocks_eq, List.flatMap_append, nextBlocks]
    simp [children]

theorem Block.mem_children {b c : Block} : c ∈ b.children ++ b.next.toList ↔ b.Holds c := by
  rw [List.mem_append, children, List.mem_filterMap, Option.mem_toList]
  rfl

namespace Graph

/-! ## At the top -/

/-- Trees have been read into the graph and put at the top. -/
structure Topped (tops : List Block) (g : Graph) : Prop where
  wired : g.Wired
  rooted : g.Rooted
  shows : List.Forall₂ (fun b t => Shows g.nodes b t) tops g.top

/-- The two graphs differ in their blocks alone. -/
def SameSettings (g g' : Graph) : Prop := g' = { g with nodes := g'.nodes, top := g'.top }

/-- A tree that was read is put at the top. -/
theorem Topped.place {tops : List Block} {g g' : Graph} {b : Block} {i : Nat} (h : Topped tops g)
    (hb : Built g .top b i g') : Topped (tops ++ [b]) (g'.place i) ∧ SameSettings g (g'.place i) := by
  obtain ⟨m, hm, -⟩ := hb.there
  have htop : (g'.place i).top = g.top ++ [i] := by
    show g'.top ++ [i] = g.top ++ [i]
    rw [hb.grown.rest]
  have hi : (g'.place i).nodes[i]? = some { m with parent := none, link := .top, placed := true } :=
    getElem?_update_self hm _
  have hkept : ∀ (k : Nat) (n : Node), g.nodes[k]? = some n → (g'.place i).nodes[k]? = some n := by
    intro k n hn
    have hlt := (List.getElem?_eq_some_iff.1 hn).1
    have hne : k ≠ i := by rw [hb.index]; omega
    exact (getElem?_update_of_ne hne _).trans (hb.grown.kept k n hn)
  refine ⟨⟨hb.wired.place hm (hb.index ▸ hb.grown.loose h.wired hb.wired), ⟨?_, fun t ht => ?_⟩, ?_⟩, ?_⟩
  · rw [htop]
    refine List.nodup_append_comm.1 (List.nodup_cons.2 ⟨fun hmem => ?_, h.rooted.nodup⟩)
    obtain ⟨n, hn, -⟩ := h.rooted.top i hmem
    have hlt := (List.getElem?_eq_some_iff.1 hn).1
    exact absurd hb.index (Nat.ne_of_lt hlt)
  · rcases List.mem_append.1 (htop ▸ ht) with ht | ht
    · obtain ⟨n, hn, hrest⟩ := h.rooted.top t ht
      exact ⟨n, hkept t n hn, hrest⟩
    · rw [List.mem_singleton.1 ht]
      exact ⟨_, hi, rfl, rfl, rfl⟩
  · rw [htop]
    refine List.rel_append (h.shows.imp fun c t hc => hc.frame fun k _ => hkept k) (.cons ?_ .nil)
    refine hb.shows.relink hm hi ?_ rfl rfl fun k hk n hn => (getElem?_update_of_ne (by omega) _).trans hn
    rw [hb.hung]
    rfl
  · show g'.place i = _
    rw [show g'.place i = { g' with nodes := (g'.place i).nodes, top := (g'.place i).top } from rfl, hb.grown.rest]

theorem alike_readTop (classify : Option Classifier) (fuel k : Nat) (rest : List Json) {tops : List Block} {g : Graph}
    (h : Topped tops g) : Alike (fun bs g' => Topped (tops ++ bs) g' ∧ SameSettings g g')
      (Workspace.readTop classify fuel k rest) (g.readTop classify fuel k rest) := by
  induction rest generalizing k tops g with
  | nil =>
    rw [Workspace.readTop, readTop]
    exact ⟨by rwa [List.append_nil], rfl⟩
  | cons j rest ih =>
    rw [Workspace.readTop, readTop]
    refine .bind (alike_readBlock classify fuel .top j h.wired).mapError fun b r hb => ?_
    obtain ⟨hplaced, hsame⟩ := h.place hb
    dsimp only
    rw [bind_pure_comp]
    refine (ih (k + 1) hplaced).map_left fun bs g' hrest => ?_
    obtain ⟨htopped, hsame'⟩ := hrest
    constructor
    · rwa [List.append_assoc] at htopped
    · rw [SameSettings, hsame', hsame]

/-- A document is read into a graph just when it is read into a workspace. -/
theorem alike_decode (classify : Option Classifier) (document : Bytes) :
    Alike (fun ws g => Topped ws.top g ∧ ws = { ws with vars := g.vars, oneBased := g.oneBased, reserved := g.reserved })
      (Workspace.decode classify document) (Graph.decode classify document) := by
  unfold Workspace.decode Graph.decode
  cases (Json.parse? document).bind Workspace.readDocument? with
  | none => exact rfl
  | some parts =>
    obtain ⟨top, vars, options⟩ := parts
    dsimp only
    have hempty : Topped [] { vars, oneBased := options.oneBased, reserved := options.reserved.items } :=
      ⟨⟨by simp, by simp, by simp, by simp, by simp, by simp⟩, ⟨List.nodup_nil, by simp⟩, .nil⟩
    rw [bind_pure_comp]
    refine (alike_readTop classify _ 0 top hempty).map_left fun bs g hrest => ⟨hrest.1, ?_⟩
    rw [hrest.2]

/-! ## The finished workspace -/

/-- What the block of a number shows is what it is finished to. -/
theorem block?_of_shows {g : Graph} {b : Block} {i fuel : Nat} (h : Shows g.nodes b i)
    (howned : ∀ j, g.Below i j → g.isOwned j = true) (hfuel : g.nodes.length < fuel + i) : g.block? fuel i = some b := by
  induction b using Block.inductionOn generalizing i fuel with
  | h b ih =>
    obtain ⟨n, hn, hhead, hsockets, hnext⟩ := shows_iff.1 h
    have hlt := (List.getElem?_eq_some_iff.1 hn).1
    cases fuel with
    | zero => omega
    | succ fuel =>
      have hheld : ∀ c d, b.Holds c → (∃ place, n.held? place = some d) → Holding g.nodes i c d → g.block? fuel d = some c :=
        fun c d hc ⟨place, hd⟩ hcd => ih c hc hcd.2 (fun j hj => howned j ((Below.self.held hn hd).trans hj))
          (by have := hcd.1; omega)
      have hplugged : ∀ s ∈ b.sockets, ∀ t ∈ n.sockets, SocketShown g.nodes i s t →
          s = ⟨t.name, t.kind, t.plugged.bind (g.block? fuel)⟩ := by
        rintro ⟨name, kind, c⟩ hs ⟨_, _, d⟩ ht ⟨rfl, rfl, hcd⟩
        dsimp only at hcd ⊢
        cases hcd with
        | none => rfl
        | some hcd =>
          obtain ⟨k, hk⟩ := Node.mem_plugged.1 (List.mem_filterMap.2 ⟨_, ht, rfl⟩)
          rw [Option.bind_some, hheld _ _ (.inl ⟨_, hs, rfl⟩) ⟨_, hk⟩ hcd]
      have hchained : b.next = n.next.bind (g.block? fuel) := by
        generalize hc : b.next = c at hnext
        generalize hd : n.next = d at hnext
        cases hnext with
        | none => rfl
        | some hcd => rw [Option.bind_some, hheld _ _ (.inr hc) ⟨.next, hd⟩ hcd]
      have hhead' : g.headOf i n = b.head := by
        rw [headOf, howned i .self]
        exact hhead.symm
      have hsame : b.sockets = n.sockets.map fun s => ⟨s.name, s.kind, s.plugged.bind (g.block? fuel)⟩ :=
        List.forall₂_eq_eq_eq ▸ List.forall₂_map_right_iff.2 (forall₂_imp hsockets hplugged)
      rw [block?, hn]
      obtain ⟨head, sockets, next⟩ := b
      dsimp only at hsame hchained hhead' ⊢
      rw [hsame, hchained, ← hhead']
      rfl

/-- The blocks of a walk are those of the tree, in the same order. -/
theorem walk_of_shows {g : Graph} (hg : g.Wired) {b : Block} {i : Nat} (h : Shows g.nodes b i)
    (howned : ∀ j, g.Below i j → g.isOwned j = true) :
    List.Forall₂ (fun b i => g.toBlock? i = some b) b.blocks (g.walk i) := by
  induction b using Block.inductionOn generalizing i with
  | h b ih =>
    obtain ⟨n, hn, -, hsockets, hnext⟩ := shows_iff.1 h
    have hlt := (List.getElem?_eq_some_iff.1 hn).1
    rw [Block.blocks_eq, walk_eq hg hn]
    refine .cons (block?_of_shows h howned (by omega)) ?_
    have hchildren : List.Forall₂ (Holding g.nodes i) (b.children ++ b.next.toList) n.children := by
      refine List.rel_append (List.rel_filterMap (fun s t hst => hst.plugged) hsockets) ?_
      generalize b.next = c at hnext
      generalize n.next = d at hnext
      cases hnext with
      | none => exact .nil
      | some hcd => exact .cons hcd .nil
    have hwalks : List.Forall₂ (fun c d => List.Forall₂ (fun b i => g.toBlock? i = some b) c.blocks (g.walk d))
        (b.children ++ b.next.toList) n.children := by
      refine forall₂_imp hchildren fun c hc d hd hcd => ?_
      obtain ⟨place, hplace⟩ := Node.mem_children.1 hd
      exact ih c (Block.mem_children.1 hc) hcd.2 fun j hj => howned j ((Below.self.held hn hplace).trans hj)
    exact List.rel_flatten (List.forall₂_map_left_iff.2 (List.forall₂_map_right_iff.2 hwalks))

/-- A forest of blocks under one workspace. -/
structure IsForest (g : Graph) : Prop where
  /-- Every block has a kind, and no two of its fields or sockets have one name. -/
  block : ∀ i, g.Reaches i → ∃ n : Node, g.nodes[i]? = some n ∧ n.kind ≠ "" ∧ (n.fields.map (·.name)).Nodup ∧
    (n.sockets.map (·.name)).Nodup
  /-- The blocks at the top hang from nothing. -/
  top : ∀ i ∈ g.top, (∃ n : Node, g.nodes[i]? = some n ∧ n.parent = none) ∧ ∀ p place, g.held? p place ≠ some i
  /-- Every other block hangs from one place of one block. It remembers that block, and its output is
  connected just when the place is a value socket. -/
  held : ∀ i, g.Reaches i → i ∉ g.top → ∃ (p : Nat) (place : Place) (holder n : Node), g.Reaches p ∧
    g.nodes[p]? = some holder ∧ g.nodes[i]? = some n ∧ holder.held? place = some i ∧
    (∀ p' place', g.held? p' place' = some i → p' = p ∧ place' = place) ∧ n.parent = some p ∧
    ((g.headOf i n).outputConnected = true ↔ holder.kind? place = some .value)
  /-- Every block belongs to the workspace. -/
  owned : ∀ i, g.Reaches i → g.isOwned i = true
  /-- Every block that can be reached is listed, and only once. -/
  listed : g.allBlocks.Nodup ∧ ∀ i, i ∈ g.allBlocks ↔ g.Reaches i
  /-- A block is listed before what is plugged into it, in the order of its sockets, and that before
  what is chained behind it. -/
  order : g.allBlocks = g.top.flatMap g.walk ∧ ∀ (i : Nat) (n : Node), g.nodes[i]? = some n →
    g.walk i = i :: (n.plugged.flatMap g.walk ++ n.next.toList.flatMap g.walk)

/-- Blocks that are wired below a top hang together as a forest. -/
theorem isForest {g : Graph} (hg : g.Wired) (htop : g.Rooted) : g.IsForest where
  block i hi := by
    obtain ⟨n, hn⟩ := there_of_reaches hg htop hi
    have hmem := List.mem_of_getElem? hn
    exact ⟨n, hn, hg.kind n hmem, hg.fields n hmem, hg.sockets n hmem⟩
  top i hi := by
    obtain ⟨n, hn, hparent, -⟩ := htop.top i hi
    refine ⟨⟨n, hn, hparent⟩, fun p place hheld => ?_⟩
    obtain ⟨m, hm, hc⟩ := Option.bind_eq_some_iff.1 hheld
    obtain ⟨-, child, hchild, hparent', -⟩ := hg.held p m place i hm hc
    obtain rfl : n = child := Option.some.inj (hn ▸ hchild)
    rw [hparent] at hparent'
    cases hparent'
  held i hi hnot := by
    obtain ⟨t, ht, hbelow⟩ := hi
    cases hbelow with
    | self => exact absurd ht hnot
    | @held p _ holder place hbelow hp hc =>
      obtain ⟨-, n, hn, hparent, hlink⟩ := hg.held p holder place i hp hc
      have hheld : g.held? p place = some i := Option.bind_eq_some_iff.2 ⟨holder, hp, hc⟩
      refine ⟨p, place, holder, n, ⟨t, ht, hbelow⟩, hp, hn, hc, fun p' place' h => hg.held_unique hheld h, hparent, ?_⟩
      rw [Head.outputConnected, decide_eq_true_iff, ← Node.link?_eq_value_iff, hlink]
      exact Option.some_inj.symm
  owned i hi := by
    obtain ⟨n, hn⟩ := there_of_reaches hg htop hi
    have hlt := (List.getElem?_eq_some_iff.1 hn).1
    exact owned_of_reaches hg htop hi (by omega)
  listed := ⟨nodup_allBlocks hg htop, fun i => mem_allBlocks hg htop⟩
  order := ⟨rfl, fun i n hn => by rw [walk_eq hg hn, Node.children, List.flatMap_append]⟩

namespace Topped

variable {tops : List Block} {g : Graph}

/-- The blocks at the top are finished to the trees. -/
theorem finished (h : Topped tops g) (hforest : g.IsForest) : g.top.filterMap g.toBlock? = tops := by
  have hblocks : List.Forall₂ (fun b t => g.toBlock? t = some b) tops g.top := by
    refine forall₂_imp h.shows fun b _ t ht hbt => ?_
    have hlt := (List.getElem?_eq_some_iff.1 (hforest.top t ht).1.choose_spec.1).1
    exact block?_of_shows hbt (fun j hj => hforest.owned j ⟨t, ht, hj⟩) (by omega)
  generalize g.top = top at hblocks
  clear h
  induction hblocks with
  | nil => rfl
  | cons hb _ ih => rw [List.filterMap_cons_some hb, ih]

/-- The blocks that are listed are those of the trees. -/
theorem listed (h : Topped tops g) (hforest : g.IsForest) :
    List.Forall₂ (fun b i => g.toBlock? i = some b) (tops.flatMap Block.blocks) g.allBlocks := by
  have hwalks : List.Forall₂ (fun b t => List.Forall₂ (fun b i => g.toBlock? i = some b) b.blocks (g.walk t)) tops g.top :=
    forall₂_imp h.shows fun b _ t ht hbt => walk_of_shows h.wired hbt fun j hj => hforest.owned j ⟨t, ht, hj⟩
  exact List.rel_flatten (List.forall₂_map_left_iff.2 (List.forall₂_map_right_iff.2 hwalks))

end Topped
end Graph

namespace Workspace

/-- What stands at the top of a workspace is read from what the document has there. -/
theorem readFrom_of_decode {classify : Option Classifier} {document : Bytes} {ws : Workspace}
    (h : decode classify document = .ok ws) :
    ∃ top vars options, (Json.parse? document).bind readDocument? = some (top, vars, options) ∧
      List.Forall₂ (Block.ReadFrom classify) ws.top top := by
  unfold decode at h
  split at h
  · cases h
  · next top vars options hparts =>
    have hread : Yields (fun ws : Workspace => List.Forall₂ (Block.ReadFrom classify) ws.top top) (fun _ => True)
        (do let top ← readTop classify (document.length + 1) 0 top
            return { top, vars, oneBased := options.oneBased, reserved := options.reserved.items }) :=
      (readFrom_readTop _ _ top).bind fun top htop => htop
    exact ⟨top, vars, options, hparts, hread.ok h⟩

/-- A decoded workspace is a forest: whenever a document is accepted, with a classifier or without, the
blocks that are put together while it is read hang together as a forest and are finished to the
workspace. Listed, they are the blocks of the workspace. Each is read from the document, where a name
that comes again keeps its first place and its last value. -/
theorem decode_isForest {classify : Option Classifier} {document : Bytes} {ws : Workspace}
    (h : decode classify document = .ok ws) :
    ∃ g : Graph, Graph.decode classify document = .ok g ∧ g.IsForest ∧ g.toWorkspace = ws ∧
      List.Forall₂ (fun b i => g.toBlock? i = some b) ws.blocks g.allBlocks ∧
      ∃ top vars options, (Json.parse? document).bind readDocument? = some (top, vars, options) ∧
        List.Forall₂ (Block.ReadFrom classify) ws.top top := by
  have halike := Graph.alike_decode classify document
  rw [h] at halike
  cases hgraph : Graph.decode classify document with
  | error e => rw [hgraph] at halike; exact halike.elim
  | ok g =>
    rw [hgraph] at halike
    obtain ⟨htopped, hsettings⟩ := halike
    have hforest := Graph.isForest htopped.wired htopped.rooted
    refine ⟨g, rfl, hforest, ?_, htopped.listed hforest, readFrom_of_decode h⟩
    rw [hsettings, Graph.toWorkspace, htopped.finished hforest]

/-- A block with a field and a socket whose names come again. -/
def repeating : Bytes := Text.bytesOf
  "\x7b\"blocks\":\x7b\"blocks\":[\x7b\"type\":\"a\",\"fields\":\x7b\"F\":1,\"G\":2,\"F\":3\x7d,\"inputs\":\x7b\"X\":\x7b\"block\":\x7b\"type\":\"b\"\x7d\x7d,\"DO\":\x7b\"block\":\x7b\"type\":\"c\"\x7d\x7d,\"X\":\x7b\"shadow\":\x7b\"type\":\"d\"\x7d\x7d\x7d,\"next\":\x7b\"block\":\x7b\"type\":\"e\"\x7d\x7d\x7d]\x7d\x7d"

/-- The block that came first in the socket is in no walk of the forest. -/
theorem repeating_isForest : ∃ ws g, decode none repeating = .ok ws ∧
    ws.blocks.map (·.head.kind) = ["a", "d", "c", "e"] ∧
    ws.top.map (·.head.fields) = [[⟨"F", "3", false⟩, ⟨"G", "2", false⟩]] ∧
    Graph.decode none repeating = .ok g ∧ g.IsForest ∧ g.nodes.length = 5 ∧ g.allBlocks.length = 4 := by
  -- one evaluation for both readings, since each of them parses the document
  obtain ⟨hread, hnodes⟩ : (decode none repeating).toOption.map (fun ws =>
      (ws.blocks.map (·.head.kind), ws.top.map (·.head.fields)))
      = some (["a", "d", "c", "e"], [[⟨"F", "3", false⟩, ⟨"G", "2", false⟩]]) ∧
      (Graph.decode none repeating).toOption.map (·.nodes.length) = some 5 := by decide +kernel
  cases hdecode : decode none repeating with
  | error e => rw [hdecode] at hread; cases hread
  | ok ws =>
    rw [hdecode] at hread
    have hparts := Prod.mk.inj (Option.some.inj hread)
    obtain ⟨g, hg, hforest, -, hlisted, -⟩ := decode_isForest hdecode
    rw [hg] at hnodes
    refine ⟨ws, g, rfl, hparts.1, hparts.2, hg, hforest, Option.some.inj hnodes, ?_⟩
    calc g.allBlocks.length = (ws.blocks.map (·.head.kind)).length := by rw [List.length_map, hlisted.length_eq]
      _ = 4 := by rw [hparts.1]; rfl

end Workspace
end Blockwright
