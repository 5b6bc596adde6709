import Blockwright.Proofs.Workspace.Construction
/-!
# Trees and graphs

A tree that is read from a document and the blocks that are put together while the same document is
read show the same: what holds a block in the tree is what it hangs from in the graph.
-/

namespace Blockwright

/-- What a block under construction says of itself, in a workspace that it belongs to. -/
def Node.toHead (n : Node) : Head :=
  { kind := n.kind, id := n.id, fields := n.fields, extra := n.extra, comment := n.comment
    disabled := n.disabled, x := n.x, y := n.y, developerVariables := n.developerVariables, link := n.link }

namespace Graph

mutual

/-- The block of a number shows a tree. Whatever a block holds has a later number. -/
def Shows (nodes : List Node) : Block → Nat → Prop
  | ⟨head, sockets, next⟩, i => ∃ n : Node, nodes[i]? = some n ∧ head = n.toHead ∧
      ShowsSockets nodes i sockets n.sockets ∧ ShowsNext nodes i next n.next

/-- The sockets of a block show those of a tree. -/
def ShowsSockets (nodes : List Node) (i : Nat) : List Socket → List NodeSocket → Prop
  | [], ts => ts = []
  | ⟨name, kind, none⟩ :: rest, ts => ∃ ts', ts = ⟨name, kind, none⟩ :: ts' ∧ ShowsSockets nodes i rest ts'
  | ⟨name, kind, some b⟩ :: rest, ts => ∃ c ts', ts = ⟨name, kind, some c⟩ :: ts' ∧ (i < c ∧ Shows nodes b c) ∧
      ShowsSockets nodes i rest ts'

/-- What is chained behind a block shows what is chained behind a tree. -/
def ShowsNext (nodes : List Node) (i : Nat) : Option Block → Option Nat → Prop
  | none, c => c = none
  | some b, c => ∃ c', c = some c' ∧ i < c' ∧ Shows nodes b c'

end

/-- A block and what it holds. -/
def Holding (nodes : List Node) (i : Nat) (b : Block) (c : Nat) : Prop := i < c ∧ Shows nodes b c

/-- A socket of a block shows one of a tree. -/
structure SocketShown (nodes : List Node) (i : Nat) (s : Socket) (t : NodeSocket) : Prop where
  name : t.name = s.name
  kind : t.kind = s.kind
  plugged : Option.Rel (Holding nodes i) s.plugged t.plugged

variable {nodes nodes' : List Node} {i : Nat}

theorem showsSockets_iff {ss : List Socket} {ts : List NodeSocket} :
    ShowsSockets nodes i ss ts ↔ List.Forall₂ (SocketShown nodes i) ss ts := by
  induction ss generalizing ts with
  | nil => rw [ShowsSockets, List.forall₂_nil_left_iff]
  | cons s ss ih =>
    obtain ⟨name, kind, _ | b⟩ := s
    · rw [ShowsSockets, List.forall₂_cons_left_iff]
      constructor
      · rintro ⟨ts', rfl, hrest⟩
        exact ⟨_, ts', ⟨rfl, rfl, .none⟩, ih.1 hrest, rfl⟩
      · rintro ⟨⟨_, _, c⟩, ts', ⟨rfl, rfl, hc⟩, hrest, rfl⟩
        cases hc
        exact ⟨ts', rfl, ih.2 hrest⟩
    · rw [ShowsSockets, List.forall₂_cons_left_iff]
      constructor
      · rintro ⟨c, ts', rfl, hc, hrest⟩
        exact ⟨⟨name, kind, some c⟩, ts', ⟨rfl, rfl, .some hc⟩, ih.1 hrest, rfl⟩
      · rintro ⟨⟨_, _, c⟩, ts', ⟨rfl, rfl, hc⟩, hrest, rfl⟩
        cases hc with
        | some hc => exact ⟨_, ts', rfl, hc, ih.2 hrest⟩

theorem showsNext_iff {next : Option Block} {c : Option Nat} :
    ShowsNext nodes i next c ↔ Option.Rel (Holding nodes i) next c := by
  cases next with
  | none =>
    rw [ShowsNext]
    exact ⟨fun h => h ▸ .none, fun h => by cases h; rfl⟩
  | some b =>
    rw [ShowsNext]
    exact ⟨fun ⟨c', hc, h⟩ => hc ▸ .some h, fun h => by cases h with | some h => exact ⟨_, rfl, h⟩⟩

theorem shows_iff {b : Block} : Shows nodes b i ↔ ∃ n : Node, nodes[i]? = some n ∧ b.head = n.toHead ∧
    List.Forall₂ (SocketShown nodes i) b.sockets n.sockets ∧ Option.Rel (Holding nodes i) b.next n.next := by
  obtain ⟨head, sockets, next⟩ := b
  rw [Shows]
  exact exists_congr fun n => and_congr_right fun _ => and_congr_right fun _ =>
    and_congr showsSockets_iff showsNext_iff

/-! ## What does not matter to a tree -/

theorem rel_imp {α β : Type} {r r' : α → β → Prop} {a : Option α} {b : Option β} (h : Option.Rel r a b)
    (himp : ∀ x y, a = some x → r x y → r' x y) : Option.Rel r' a b := by
  cases h with
  | none => exact .none
  | some hr => exact .some (himp _ _ rfl hr)

theorem forall₂_imp {α β : Type} {r r' : α → β → Prop} {as : List α} {bs : List β} (h : List.Forall₂ r as bs)
    (himp : ∀ a ∈ as, ∀ b ∈ bs, r a b → r' a b) : List.Forall₂ r' as bs := by
  induction h with
  | nil => exact .nil
  | cons hr _ ih =>
    exact .cons (himp _ List.mem_cons_self _ List.mem_cons_self hr)
      (ih fun a ha b hb => himp a (List.mem_cons_of_mem _ ha) b (List.mem_cons_of_mem _ hb))

/-- Only the blocks from its own number on matter to a tree. -/
theorem Shows.frame {b : Block} (h : Shows nodes b i)
    (hkept : ∀ k, i ≤ k → ∀ n, nodes[k]? = some n → nodes'[k]? = some n) : Shows nodes' b i := by
  induction b using Block.inductionOn generalizing i with
  | h b ih =>
    obtain ⟨n, hn, hhead, hsockets, hnext⟩ := shows_iff.1 h
    have hheld : ∀ d c, b.Holds d → Holding nodes i d c → Holding nodes' i d c := fun d c hd hc =>
      ⟨hc.1, ih d hd hc.2 fun k hk => hkept k (by have := hc.1; omega)⟩
    refine shows_iff.2 ⟨n, hkept i (Nat.le_refl i) n hn, hhead, ?_, ?_⟩
    · refine forall₂_imp hsockets fun s hs t _ hst => ⟨hst.name, hst.kind, ?_⟩
      exact rel_imp hst.plugged fun d c hd => hheld d c (.inl ⟨s, hs, hd⟩)
    · exact rel_imp hnext fun d c hd => hheld d c (.inr hd)

/-- Only the first block matters to how a tree hangs. -/
theorem Shows.relink {b : Block} (h : Shows nodes (b.linked .top) i) {n n' : Node} (hn : nodes[i]? = some n)
    (hn' : nodes'[i]? = some n') (hhead : n'.toHead = { n.toHead with link := b.head.link })
    (hsockets : n'.sockets = n.sockets) (hnext : n'.next = n.next)
    (hkept : ∀ k, i < k → ∀ n, nodes[k]? = some n → nodes'[k]? = some n) : Shows nodes' b i := by
  obtain ⟨m, hm, hmhead, hmsockets, hmnext⟩ := shows_iff.1 h
  obtain rfl : n = m := Option.some.inj (hn ▸ hm)
  have hholding : ∀ d c, Holding nodes i d c → Holding nodes' i d c := fun d c hc =>
    ⟨hc.1, hc.2.frame fun k hk => hkept k (by have := hc.1; omega)⟩
  refine shows_iff.2 ⟨n', hn', ?_, ?_, ?_⟩
  · rw [hhead, ← hmhead]
    rfl
  · rw [hsockets]
    exact forall₂_imp hmsockets fun s _ t _ hst => ⟨hst.name, hst.kind, rel_imp hst.plugged fun d c _ => hholding d c⟩
  · rw [hnext]
    exact rel_imp hmnext fun d c _ => hholding d c

/-! ## What steps leave alone -/

section Steps

variable {g : Graph} {k : Nat}

theorem getElem?_attach_of_ne {child : Option Nat} {link : Link} (h : ∀ c, child = some c → k ≠ c) :
    (g.attach child i link).nodes[k]? = g.nodes[k]? := by
  cases child with
  | none => rfl
  | some c => exact getElem?_update_of_ne (h c rfl) _

theorem getElem?_plug_of_ne {name : String} {kind : SocketKind} {child : Option Nat} (hk : k ≠ i) (h : ∀ c, child = some c → k ≠ c) :
    (g.plug i name kind child).nodes[k]? = g.nodes[k]? :=
  (getElem?_update_of_ne hk _).trans (getElem?_attach_of_ne h)

theorem getElem?_plug_self {n : Node} {name : String} {kind : SocketKind} {child : Option Nat} (h : ∀ c, child = some c → i ≠ c)
    (hn : g.nodes[i]? = some n) : (g.plug i name kind child).nodes[i]? =
      some { n with sockets := setSocket n.sockets ⟨name, kind, child⟩ } :=
  getElem?_update_self ((getElem?_attach_of_ne h).trans hn) _

theorem getElem?_plug_child {n : Node} {c : Nat} {name : String} {kind : SocketKind} (hne : c ≠ i)
    (hn : g.nodes[c]? = some n) : (g.plug i name kind (some c)).nodes[c]? =
      some { n with parent := some i, link := kind.link } := by
  rw [plug, link_of_kind, getElem?_update_of_ne hne]
  exact getElem?_update_self hn _

theorem getElem?_chain_of_ne {child : Option Nat} (hk : k ≠ i) (h : ∀ c, child = some c → k ≠ c) :
    (g.chain i child).nodes[k]? = g.nodes[k]? :=
  (getElem?_update_of_ne hk _).trans (getElem?_attach_of_ne h)

theorem getElem?_chain_self {n : Node} {child : Option Nat} (h : ∀ c, child = some c → i ≠ c) (hn : g.nodes[i]? = some n) :
    (g.chain i child).nodes[i]? = some { n with next := child } :=
  getElem?_update_self ((getElem?_attach_of_ne h).trans hn) _

theorem getElem?_chain_child {n : Node} {c : Nat} (hne : c ≠ i) (hn : g.nodes[c]? = some n) :
    (g.chain i (some c)).nodes[c]? = some { n with parent := some i, link := .next } :=
  (getElem?_update_of_ne hne _).trans (getElem?_update_self hn _)

end Steps

/-! ## Reading in step -/

/-- The graph has more blocks than before, and nothing else has changed. -/
structure Grown (g g' : Graph) : Prop where
  kept : ∀ (k : Nat) (n : Node), g.nodes[k]? = some n → g'.nodes[k]? = some n
  rest : g' = { g with nodes := g'.nodes }

theorem Grown.trans {g g' g'' : Graph} (h : Grown g g') (h' : Grown g' g'') : Grown g g'' :=
  ⟨fun k n hn => h'.kept k n (h.kept k n hn), by rw [h'.rest, h.rest]⟩

/-- A tree has been read into the graph, under the next number, and hangs from nothing yet. -/
structure Built (g : Graph) (link : Link) (b : Block) (i : Nat) (g' : Graph) : Prop where
  wired : g'.Wired
  grown : Grown g g'
  index : i = g.nodes.length
  hung : b.head.link = link
  shows : Shows g'.nodes (b.linked .top) i

/-- A block has been added, under the next number, and some of its sockets have been read. -/
structure Filling (g : Graph) (i : Nat) (n : Node) (sockets : List Socket) (g' : Graph) : Prop where
  wired : g'.Wired
  grown : Grown g g'
  index : i = g.nodes.length
  shows : ∃ ss, g'.nodes[i]? = some { n with sockets := ss } ∧ List.Forall₂ (SocketShown g'.nodes i) sockets ss

variable {g g' g'' : Graph} {n : Node} {sockets : List Socket} {b : Block} {c : Nat} {link : Link}

/-- Nobody holds a block that has just been added. -/
theorem Grown.loose (h : Grown g g') (hg : g.Wired) (hg' : g'.Wired) : g'.Loose g.nodes.length := by
  intro p n place hn hc
  have hlt := (hg'.held p n place _ hn hc).1
  have hold : g.nodes[p]? = some n := by
    have hkept := h.kept p _ (List.getElem?_eq_getElem hlt)
    rw [hn] at hkept
    rw [List.getElem?_eq_getElem hlt, hkept]
  obtain ⟨-, child, hchild, -⟩ := hg.held p n place _ hold hc
  exact absurd (List.getElem?_eq_some_iff.1 hchild).1 (Nat.lt_irrefl _)

theorem Filling.lt (h : Filling g i n sockets g') : i < g'.nodes.length := by
  obtain ⟨ss, hss, -⟩ := h.shows
  exact (List.getElem?_eq_some_iff.1 hss).1

/-- A tree that is shown is there. -/
theorem Built.there (h : Built g link b c g') : ∃ m : Node, g'.nodes[c]? = some m ∧ (b.linked .top).head = m.toHead := by
  obtain ⟨m, hm, hhead, -⟩ := shows_iff.1 h.shows
  exact ⟨m, hm, hhead⟩

/-- A tree that was read can be taken by the block that is being filled. -/
theorem Built.free (h : Built g' link b c g'') (hg' : g'.Wired) {i : Nat} (hi : i < g'.nodes.length) : g''.Free i c := by
  obtain ⟨m, hm, -⟩ := h.there
  exact ⟨h.index ▸ hi, h.index ▸ h.grown.loose hg' h.wired, m, hm⟩

theorem rest_plug (g : Graph) (i : Nat) (name : String) (kind : SocketKind) (child : Option Nat) :
    g.plug i name kind child = { g with nodes := (g.plug i name kind child).nodes } := by
  cases child <;> rfl

theorem rest_chain (g : Graph) (i : Nat) (child : Option Nat) :
    g.chain i child = { g with nodes := (g.chain i child).nodes } := by
  cases child <;> rfl

/-- Blocks that were there before a tree was read are not the tree. -/
theorem Built.ne (h : Built g' link b c g'') {k : Nat} {m : Node} (hm : g'.nodes[k]? = some m) :
    ∀ c', some c = some c' → k ≠ c' := by
  have hlt := (List.getElem?_eq_some_iff.1 hm).1
  have hindex := h.index
  intro c' hc
  cases hc
  omega

/-- A socket that was read is plugged. -/
theorem Filling.plug (h : Filling g i n sockets g') {name : String} {kind : SocketKind} (hb : Built g' kind.link b c g'') :
    Filling g i n (Block.setSocket sockets ⟨name, kind, some b⟩) (g''.plug i name kind (some c)) := by
  have hfree := hb.free h.wired h.lt
  have hci : c ≠ i := Nat.ne_of_gt hfree.lt
  obtain ⟨ss, hss, hshown⟩ := h.shows
  obtain ⟨m, hm, hmhead⟩ := hb.there
  have hkept : ∀ (k : Nat) (m : Node), k ≠ i → g'.nodes[k]? = some m →
      (g''.plug i name kind (some c)).nodes[k]? = some m := fun k m hk hm =>
    (getElem?_plug_of_ne hk (hb.ne hm)).trans (hb.grown.kept k m hm)
  have hnew : ∀ k, c < k → ∀ m : Node, g''.nodes[k]? = some m →
      (g''.plug i name kind (some c)).nodes[k]? = some m := fun k hk m hm =>
    (getElem?_plug_of_ne (by have := hfree.lt; omega) (fun c' hc' => by cases hc'; omega)).trans hm
  have hi : (g''.plug i name kind (some c)).nodes[i]? = some { n with sockets := setSocket ss ⟨name, kind, some c⟩ } :=
    getElem?_plug_self (hb.ne hss) (hb.grown.kept i _ hss)
  refine ⟨hb.wired.plug (hb.grown.kept i _ hss) name kind fun c' hc' => ?_, ⟨fun k m hm => ?_, ?_⟩, h.index, _, hi, ?_⟩
  · cases hc'
    exact hfree
  · have hlt := (List.getElem?_eq_some_iff.1 hm).1
    exact hkept k m (by rw [h.index]; omega) (h.grown.kept k m hm)
  · rw [rest_plug, (h.grown.trans hb.grown).rest]
  · refine Entries.forall₂_set Socket.name (fun _ _ hst => SocketShown.name hst) ?_ ⟨rfl, rfl, .some ⟨hfree.lt, ?_⟩⟩
    · refine forall₂_imp hshown fun s _ t _ hst => ⟨hst.name, hst.kind, rel_imp hst.plugged fun d c _ hc => ⟨hc.1, ?_⟩⟩
      exact hc.2.frame fun k hk m => hkept k m (by have := hc.1; omega)
    · refine hb.shows.relink hm (getElem?_plug_child hci hm) ?_ rfl rfl hnew
      rw [hb.hung]
      rfl

/-- A socket that was read is empty. -/
theorem Filling.plug_none (h : Filling g i n sockets g') (name : String) (kind : SocketKind) :
    Filling g i n (Block.setSocket sockets ⟨name, kind, none⟩) (g'.plug i name kind none) := by
  obtain ⟨ss, hss, hshown⟩ := h.shows
  have hkept : ∀ (k : Nat) (m : Node), k ≠ i → g'.nodes[k]? = some m → (g'.plug i name kind none).nodes[k]? = some m :=
    fun k m hk hm => (getElem?_plug_of_ne hk (by simp)).trans hm
  have hi : (g'.plug i name kind none).nodes[i]? = some { n with sockets := setSocket ss ⟨name, kind, none⟩ } :=
    getElem?_plug_self (by simp) hss
  refine ⟨h.wired.plug hss name kind (by simp), ⟨fun k m hm => ?_, ?_⟩, h.index, _, hi, ?_⟩
  · have hlt := (List.getElem?_eq_some_iff.1 hm).1
    exact hkept k m (by rw [h.index]; omega) (h.grown.kept k m hm)
  · rw [rest_plug, h.grown.rest]
  · refine Entries.forall₂_set Socket.name (fun _ _ hst => SocketShown.name hst) ?_ ⟨rfl, rfl, .none⟩
    refine forall₂_imp hshown fun s _ t _ hst => ⟨hst.name, hst.kind, rel_imp hst.plugged fun d c _ hc => ⟨hc.1, ?_⟩⟩
    exact hc.2.frame fun k hk m => hkept k m (by have := hc.1; omega)

/-- A block that holds nothing behind it has been read. -/
theorem Filling.built (h : Filling g i n sockets g') (hlink : n.link = .top) (hnext : n.next = none) (link : Link) :
    Built g link ⟨{ n.toHead with link }, sockets, none⟩ i g' := by
  obtain ⟨ss, hss, hshown⟩ := h.shows
  refine ⟨h.wired, h.grown, h.index, rfl, shows_iff.2 ⟨_, hss, ?_, hshown, ?_⟩⟩
  · show ({ n.toHead with link := .top } : Head) = n.toHead
    rw [← hlink]
    rfl
  · rw [hnext]
    exact .none

/-- A block has been read together with what is chained behind it. -/
theorem Filling.chain (h : Filling g i n sockets g') (hlink : n.link = .top) (link : Link) (hb : Built g' .next b c g'') :
    Built g link ⟨{ n.toHead with link }, sockets, some b⟩ i (g''.chain i (some c)) := by
  have hfree := hb.free h.wired h.lt
  have hci : c ≠ i := Nat.ne_of_gt hfree.lt
  obtain ⟨ss, hss, hshown⟩ := h.shows
  obtain ⟨m, hm, hmhead⟩ := hb.there
  have hkept : ∀ (k : Nat) (m : Node), k ≠ i → g'.nodes[k]? = some m → (g''.chain i (some c)).nodes[k]? = some m :=
    fun k m hk hm => (getElem?_chain_of_ne hk (hb.ne hm)).trans (hb.grown.kept k m hm)
  have hnew : ∀ k, c < k → ∀ m : Node, g''.nodes[k]? = some m → (g''.chain i (some c)).nodes[k]? = some m :=
    fun k hk m hm => (getElem?_chain_of_ne (by have := hfree.lt; omega) (fun c' hc' => by cases hc'; omega)).trans hm
  have hi : (g''.chain i (some c)).nodes[i]? = some { n with sockets := ss, next := some c } :=
    getElem?_chain_self (hb.ne hss) (hb.grown.kept i _ hss)
  refine ⟨hb.wired.chain (hb.grown.kept i _ hss) fun c' hc' => ?_, ⟨fun k m hm => ?_, ?_⟩, h.index, rfl,
    shows_iff.2 ⟨_, hi, ?_, ?_, ?_⟩⟩
  · cases hc'
    exact hfree
  · have hlt := (List.getElem?_eq_some_iff.1 hm).1
    exact hkept k m (by rw [h.index]; omega) (h.grown.kept k m hm)
  · rw [rest_chain, (h.grown.trans hb.grown).rest]
  · show ({ n.toHead with link := .top } : Head) = n.toHead
    rw [← hlink]
    rfl
  · refine forall₂_imp hshown fun s _ t _ hst => ⟨hst.name, hst.kind, rel_imp hst.plugged fun d c _ hc => ⟨hc.1, ?_⟩⟩
    exact hc.2.frame fun k hk m => hkept k m (by have := hc.1; omega)
  · refine .some ⟨hfree.lt, hb.shows.relink hm (getElem?_chain_child hci hm) ?_ rfl rfl hnew⟩
    rw [hb.hung]
    rfl

/-- A block that has been added and described is ready to be filled. -/
theorem filling_describe (hg : g.Wired) {m : Workspace.BlockMembers} (hkind : m.kind ≠ "") (extra : ExtraState)
    {fields : List Field} (hfields : (fields.map (·.name)).Nodup) :
    Filling g g.nodes.length
      { kind := m.kind, id := m.id, fields, extra, comment := m.comment.getD ""
        disabled := m.enabled = some false || !m.disabledReasons.isEmpty, x := m.x, y := m.y }
      [] ((g.add m.kind).2.describe g.nodes.length m extra fields) := by
  have hadded : (g.add m.kind).2.nodes[g.nodes.length]? = some { kind := m.kind } := List.getElem?_concat_length
  refine ⟨(hg.add hkind).redescribe (fun _ => hfields) (fun _ => ⟨rfl, rfl, rfl, rfl, rfl⟩) hadded,
    ⟨fun k n hn => ?_, rfl⟩, rfl, [], getElem?_update_self hadded _, .nil⟩
  have hlt := (List.getElem?_eq_some_iff.1 hn).1
  exact (getElem?_update_of_ne (by omega) _).trans ((List.getElem?_append_left hlt).trans hn)

theorem alike_some {x : Except BlockDecodeError Block} {y : Except BlockDecodeError (Nat × Graph)}
    (h : Alike (fun b r => Built g link b r.1 r.2) x y) :
    Alike (fun next r => ∃ b, next = some b ∧ Built g link b r.1 r.2) (x.map some) y :=
  h.map_left fun b _ hb => ⟨b, rfl, hb⟩

variable (classify : Option Classifier)

mutual

/-- The tree and the graph are read in step, and rejected for the same reason. -/
theorem alike_readBlock (fuel : Nat) (link : Link) (j : Json) {g : Graph} (hg : g.Wired) :
    Alike (fun b r => Built g link b r.1 r.2) (Workspace.readBlock classify fuel link j) (g.readBlock classify fuel j) := by
  cases fuel with
  | zero => rw [Workspace.readBlock, readBlock]; exact rfl
  | succ fuel =>
    rw [Workspace.readBlock, readBlock]
    cases Workspace.BlockMembers.read? j with
    | none => exact rfl
    | some m =>
      dsimp only
      split
      · exact rfl
      · next hkind =>
        refine .after fun extra _ => .after fun fieldMembers _ => .after fun fields hfields => .after fun inputMembers _ => ?_
        have hfields := (Workspace.fieldsRead_readFields m.id m.kind fieldMembers).ok hfields
        have hfilling := filling_describe hg hkind extra hfields.1
        refine .bind (alike_readSockets fuel m.id m.kind inputMembers hfilling) fun sockets g' h => ?_
        cases m.next.bind (·.target?) with
        | none => exact .pure (h.built rfl rfl link)
        | some target =>
          refine .bind (alike_some (alike_readBlock fuel .next target h.wired)) ?_
          rintro _ ⟨c, g''⟩ ⟨b, rfl, hb⟩
          exact .pure (h.chain rfl link hb)

theorem alike_readSockets (fuel : Nat) (id kind : String) (members : List (String × Json)) {g g' : Graph} {i : Nat}
    {n : Node} {sockets : List Socket} (h : Filling g i n sockets g') :
    Alike (fun sockets g' => Filling g i n sockets g') (Workspace.readSockets classify fuel id kind sockets members)
      (g'.readSockets classify fuel id kind i members) := by
  cases fuel with
  | zero => rw [Workspace.readSockets, readSockets]; exact rfl
  | succ fuel =>
    cases members with
    | nil => rw [Workspace.readSockets, readSockets]; exact h
    | cons member rest =>
      obtain ⟨name, j⟩ := member
      rw [Workspace.readSockets, readSockets]
      cases Workspace.Connection.reader {} j with
      | none => exact rfl
      | some c =>
        dsimp only
        rw [link_of_kind]
        cases c.target? with
        | none => exact alike_readSockets fuel id kind rest (h.plug_none name _)
        | some target =>
          refine .bind (alike_some (alike_readBlock fuel _ target h.wired)) ?_
          rintro _ ⟨c, g''⟩ ⟨b, rfl, hb⟩
          exact alike_readSockets fuel id kind rest (h.plug hb)

end

end Graph
end Blockwright
