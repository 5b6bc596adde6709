import Blockwright.Proofs.Workspace.Forest
/-!
# Reading by construction

A document can be read by putting its blocks together one by one: a block is added before what it
holds is read, what was read is plugged in, and what stands under a name that comes again takes the
place of what was plugged in first, which is left over. Every step keeps the blocks wired.
-/

namespace Blockwright
namespace Graph

/-! ## Reading -/

section Reading

variable (classify : Option Classifier)

/-- Fills in what a block says of itself. -/
def describe (g : Graph) (i : Nat) (m : Workspace.BlockMembers) (extra : ExtraState) (fields : List Field) : Graph :=
  g.update i fun n =>
    { n with
      id := m.id, fields, extra, comment := m.comment.getD "",
      disabled := m.enabled = some false || !m.disabledReasons.isEmpty, x := m.x, y := m.y }

open Workspace (BlockMembers Connection objectMembers readFields) in
mutual

/-- Reads a block into a graph and gives its number; `fuel` bounds the nesting. -/
def readBlock : Nat → Json → Graph → Except BlockDecodeError (Nat × Graph)
  | 0, _, _ => .error .unreadable
  | fuel + 1, j, g => do
    let some m := BlockMembers.read? j | .error .unreadable
    if m.kind = "" then .error .untyped
    let (i, g) := g.add m.kind
    let extra ← (ExtraState.decode m.extraState).mapError (.extraState m.id m.kind)
    let fieldMembers ← (objectMembers m.fields).mapError (.fields m.id m.kind)
    let fields ← readFields m.id m.kind fieldMembers
    let g := g.describe i m extra fields
    let inputMembers ← (objectMembers m.inputs).mapError (.inputs m.id m.kind)
    let g ← readSockets fuel m.id m.kind i inputMembers g
    match m.next.bind (·.target?) with
    | some target => do
      let (c, g) ← readBlock fuel target g
      return (i, g.chain i (some c))
    | none => return (i, g)

/-- Reads the sockets of a block in order, with what is plugged into them. -/
def readSockets : Nat → String → String → Nat → List (String × Json) → Graph → Except BlockDecodeError Graph
  | 0, _, _, _, _, _ => .error .unreadable
  | _ + 1, _, _, _, [], g => .ok g
  | fuel + 1, id, kind, i, (name, j) :: rest, g => do
    let some c := Connection.reader {} j | .error (.input id kind name)
    let socketKind := socketKind classify kind name
    match c.target? with
    | some target => do
      let (c, g) ← readBlock fuel target g
      readSockets fuel id kind i rest (g.plug i name socketKind (some c))
    | none => readSockets fuel id kind i rest (g.plug i name socketKind none)

end

/-- Reads blocks and puts them at the top. -/
def readTop (fuel : Nat) : Nat → List Json → Graph → Except DecodeError Graph
  | _, [], g => .ok g
  | k, j :: rest, g => do
    let (i, g) ← (readBlock classify fuel j g).mapError (.top k)
    readTop fuel (k + 1) rest (g.place i)

/-- Reads the graph that a document holds. -/
def decode (document : Bytes) : Except DecodeError Graph :=
  match (Json.parse? document).bind Workspace.readDocument? with
  | none => .error .unreadable
  | some (top, vars, options) =>
    readTop classify (document.length + 1) 0 top
      { vars, oneBased := options.oneBased, reserved := options.reserved.items }

end Reading

/-! ## Steps -/

section Steps

variable {g : Graph}

theorem getElem?_update (g : Graph) (i : Nat) (f : Node → Node) (k : Nat) :
    (g.update i f).nodes[k]? = if k = i then g.nodes[k]?.map f else g.nodes[k]? := by
  rw [update, List.getElem?_modify]
  by_cases hk : i = k
  · subst hk
    simp
  · rw [if_neg (Ne.symm hk)]
    simp [hk]

theorem getElem?_update_self {i : Nat} {n : Node} (hn : g.nodes[i]? = some n) (f : Node → Node) :
    (g.update i f).nodes[i]? = some (f n) := by
  rw [getElem?_update, if_pos rfl, hn, Option.map_some]

theorem getElem?_update_of_ne {i k : Nat} (hne : k ≠ i) (f : Node → Node) :
    (g.update i f).nodes[k]? = g.nodes[k]? := by
  rw [getElem?_update, if_neg hne]

/-- No block holds the one of a number. -/
def Loose (g : Graph) (c : Nat) : Prop :=
  ∀ (p : Nat) (n : Node) (place : Place), g.nodes[p]? = some n → n.held? place ≠ some c

/-- A block that is changed keeps the graph wired when it is wired itself and still says how it is held. -/
theorem Wired.update (hg : g.Wired) {i : Nat} {n : Node} (hn : g.nodes[i]? = some n) {f : Node → Node}
    (hkind : (f n).kind ≠ "") (hfields : ((f n).fields.map (·.name)).Nodup)
    (hsockets : ((f n).sockets.map (·.name)).Nodup)
    (hheld : ∀ place c, (f n).held? place = some c →
      i < c ∧ ∃ child : Node, g.nodes[c]? = some child ∧ child.parent = some i ∧ (f n).link? place = some child.link)
    (hapart : ∀ place place' c, (f n).held? place = some c → (f n).held? place' = some c → place = place')
    (hparent : ∀ p, (f n).parent = some p → p < i)
    (hself : ∀ (p : Nat) (m : Node) (place : Place), g.nodes[p]? = some m → m.held? place = some i →
      (f n).parent = some p ∧ m.link? place = some (f n).link) : (g.update i f).Wired := by
  have hcases : ∀ {k : Nat} {m : Node}, (g.update i f).nodes[k]? = some m → (k = i ∧ m = f n) ∨ (k ≠ i ∧ g.nodes[k]? = some m) := by
    intro k m hm
    by_cases hk : k = i
    · subst hk
      rw [getElem?_update_self hn] at hm
      exact .inl ⟨rfl, (Option.some.inj hm).symm⟩
    · rw [getElem?_update_of_ne hk] at hm
      exact .inr ⟨hk, hm⟩
  have hmem : ∀ m ∈ (g.update i f).nodes, m = f n ∨ m ∈ g.nodes := by
    intro m hm
    obtain ⟨k, hk⟩ := List.mem_iff_getElem?.1 hm
    rcases hcases hk with ⟨-, rfl⟩ | ⟨-, hk⟩
    · exact .inl rfl
    · exact .inr (List.mem_of_getElem? hk)
  refine ⟨fun m hm => ?_, fun m hm => ?_, fun m hm => ?_, fun p m place c hm hc => ?_, fun m hm => ?_, fun k m p hm hp => ?_⟩
  · rcases hmem m hm with rfl | hm
    · exact hkind
    · exact hg.kind m hm
  · rcases hmem m hm with rfl | hm
    · exact hfields
    · exact hg.fields m hm
  · rcases hmem m hm with rfl | hm
    · exact hsockets
    · exact hg.sockets m hm
  · rcases hcases hm with ⟨rfl, rfl⟩ | ⟨hp, hheld'⟩
    · obtain ⟨hlt, child, hchild, hrest⟩ := hheld place c hc
      exact ⟨hlt, child, (getElem?_update_of_ne (by omega) f).trans hchild, hrest⟩
    · obtain ⟨hlt, child, hchild, hrest⟩ := hg.held p m place c hheld' hc
      -- another block may hold the one that is changed, which still says so
      by_cases hci : c = i
      · subst hci
        exact ⟨hlt, f n, getElem?_update_self hn f, hself p m place hheld' hc⟩
      · exact ⟨hlt, child, (getElem?_update_of_ne hci f).trans hchild, hrest⟩
  · rcases hmem m hm with rfl | hm
    · exact hapart
    · exact hg.apart m hm
  · rcases hcases hm with ⟨rfl, rfl⟩ | ⟨-, hm⟩
    · exact hparent p hp
    · exact hg.parent k m p hm hp

/-- A block that is changed in nothing that wires it. -/
theorem Wired.redescribe (hg : g.Wired) {i : Nat} {f : Node → Node} (hfields : ∀ n, ((f n).fields.map (·.name)).Nodup)
    (hrest : ∀ n, (f n).kind = n.kind ∧ (f n).sockets = n.sockets ∧ (f n).next = n.next ∧ (f n).parent = n.parent ∧
      (f n).link = n.link) {n : Node} (hn : g.nodes[i]? = some n) : (g.update i f).Wired := by
  obtain ⟨hkind, hsockets, hnext, hparent, hlink⟩ := hrest n
  have hheld : ∀ place, (f n).held? place = n.held? place := by
    rintro (k | _) <;> simp [Node.held?, hsockets, hnext]
  have hlinks : ∀ place, (f n).link? place = n.link? place := by
    rintro (k | _) <;> simp [Node.link?, hsockets]
  have hmem := List.mem_of_getElem? hn
  refine hg.update hn (hkind ▸ hg.kind n hmem) (hfields n) (hsockets ▸ hg.sockets n hmem) (fun place c hc => ?_)
    (fun place place' c hc hc' => ?_) (fun p hp => ?_) fun p m place hm hc => ?_
  · rw [hheld] at hc
    rw [hlinks]
    exact hg.held i n place c hn hc
  · rw [hheld] at hc hc'
    exact hg.apart n hmem _ _ c hc hc'
  · exact hg.parent i n p hn (hparent ▸ hp)
  · obtain ⟨-, child, hchild, hparent', hlink'⟩ := hg.held p m place i hm hc
    obtain rfl : n = child := Option.some.inj (hn ▸ hchild)
    exact ⟨hparent.trans hparent', hlink ▸ hlink'⟩

/-- A block that nobody holds may hang from any earlier one. -/
theorem Wired.rehang (hg : g.Wired) {c : Nat} {n : Node} (hn : g.nodes[c]? = some n) (hloose : g.Loose c) {f : Node → Node}
    (hrest : (f n).kind = n.kind ∧ (f n).fields = n.fields ∧ (f n).sockets = n.sockets ∧ (f n).next = n.next)
    (hparent : ∀ p, (f n).parent = some p → p < c) : (g.update c f).Wired := by
  obtain ⟨hkind, hfields, hsockets, hnext⟩ := hrest
  have hheld : ∀ place, (f n).held? place = n.held? place := by
    rintro (k | _) <;> simp [Node.held?, hsockets, hnext]
  have hlinks : ∀ place, (f n).link? place = n.link? place := by
    rintro (k | _) <;> simp [Node.link?, hsockets]
  have hmem := List.mem_of_getElem? hn
  refine hg.update hn (hkind ▸ hg.kind n hmem) (hfields ▸ hg.fields n hmem) (hsockets ▸ hg.sockets n hmem)
    (fun place c hc => ?_) (fun place place' c hc hc' => ?_) hparent fun p m place hm hc => ?_
  · rw [hheld] at hc
    rw [hlinks]
    exact hg.held _ n place c hn hc
  · rw [hheld] at hc hc'
    exact hg.apart n hmem _ _ c hc hc'
  · exact absurd hc (hloose p m place hm)

theorem Wired.add (hg : g.Wired) {kind : String} (hkind : kind ≠ "") : (g.add kind).2.Wired := by
  have hcases : ∀ {k : Nat} {m : Node}, (g.add kind).2.nodes[k]? = some m →
      (k < g.nodes.length ∧ g.nodes[k]? = some m) ∨ m = { kind } := by
    intro k m hm
    rw [show (g.add kind).2.nodes = g.nodes ++ [{ kind }] from rfl, List.getElem?_append] at hm
    split_ifs at hm with hlt
    · exact .inl ⟨hlt, hm⟩
    · exact .inr (List.mem_singleton.1 (List.mem_of_getElem? hm))
  have hold : ∀ {k : Nat} {m : Node}, g.nodes[k]? = some m → (g.add kind).2.nodes[k]? = some m := fun hm =>
    (List.getElem?_append_left (List.getElem?_eq_some_iff.1 hm).1).trans hm
  have hmem : ∀ m ∈ (g.add kind).2.nodes, m ∈ g.nodes ∨ m = { kind } := fun m hm =>
    (List.mem_append.1 hm).imp_right List.mem_singleton.1
  have hempty : ∀ place, ({ kind } : Node).held? place = none := by
    rintro (k | _) <;> rfl
  refine ⟨fun m hm => ?_, fun m hm => ?_, fun m hm => ?_, fun p m place c hm hc => ?_, fun m hm => ?_, fun k m p hm hp => ?_⟩
  · rcases hmem m hm with hm | rfl
    · exact hg.kind m hm
    · exact hkind
  · rcases hmem m hm with hm | rfl
    · exact hg.fields m hm
    · exact List.nodup_nil
  · rcases hmem m hm with hm | rfl
    · exact hg.sockets m hm
    · exact List.nodup_nil
  · rcases hcases hm with ⟨-, hm⟩ | rfl
    · obtain ⟨hlt, child, hchild, hrest⟩ := hg.held p m place c hm hc
      exact ⟨hlt, child, hold hchild, hrest⟩
    · rw [hempty] at hc
      cases hc
  · rcases hmem m hm with hm | rfl
    · exact hg.apart m hm
    · intro place place' c hc
      rw [hempty] at hc
      cases hc
  · rcases hcases hm with ⟨-, hm⟩ | rfl
    · exact hg.parent k m p hm hp
    · cases hp

/-- The link of what is plugged into a socket of a kind. -/
theorem link_of_kind (kind : SocketKind) : (if kind = .statement then Link.statement else .value) = kind.link := by
  cases kind <;> rfl

/-- A block that an earlier one of a number may take. -/
structure Free (g : Graph) (i c : Nat) : Prop where
  lt : i < c
  loose : g.Loose c
  there : ∃ m : Node, g.nodes[c]? = some m

/-- A block that is recorded as held remembers how. -/
theorem Wired.attach (hg : g.Wired) {i : Nat} {n : Node} (hn : g.nodes[i]? = some n) (link : Link) {child : Option Nat}
    (hchild : ∀ c, child = some c → g.Free i c) :
    (g.attach child i link).Wired ∧ (g.attach child i link).nodes[i]? = some n ∧
      ∀ c, child = some c → ∃ m : Node, (g.attach child i link).nodes[c]? = some m ∧ m.parent = some i ∧ m.link = link := by
  cases child with
  | none => exact ⟨hg, hn, by simp⟩
  | some c =>
    obtain ⟨hlt, hloose, m, hm⟩ := hchild c rfl
    refine ⟨hg.rehang hm hloose ⟨rfl, rfl, rfl, rfl⟩ fun p hp => ?_, ?_, fun c' hc' => ?_⟩
    · exact Option.some.inj hp ▸ hlt
    · exact (getElem?_update_of_ne (by omega) _).trans hn
    · obtain rfl := Option.some.inj hc'
      exact ⟨_, getElem?_update_self hm _, rfl, rfl⟩

/-- A block may take one more that remembers being held by it, in a place of its own. -/
theorem Wired.take (hg : g.Wired) {i : Nat} {n : Node} (hn : g.nodes[i]? = some n) {f : Node → Node}
    (hsame : (f n).kind = n.kind ∧ (f n).fields = n.fields ∧ (f n).parent = n.parent ∧ (f n).link = n.link)
    (hsockets : ((f n).sockets.map (·.name)).Nodup) (child : Option Nat) (link : Link)
    (hchild : ∀ c, child = some c → i < c ∧ (∀ place, n.held? place ≠ some c) ∧
      ∃ m : Node, g.nodes[c]? = some m ∧ m.parent = some i ∧ m.link = link)
    (hheld : ∀ place c, (f n).held? place = some c →
      (n.held? place = some c ∧ (f n).link? place = n.link? place) ∨ (child = some c ∧ (f n).link? place = some link))
    (honce : ∀ place place' c, child = some c → (f n).held? place = some c → (f n).held? place' = some c →
      place = place') : (g.update i f).Wired := by
  obtain ⟨hkind, hfields, hparent, hlink⟩ := hsame
  have hmem := List.mem_of_getElem? hn
  refine hg.update hn (hkind ▸ hg.kind n hmem) (hfields ▸ hg.fields n hmem) hsockets (fun place c hc => ?_)
    (fun place place' c hc hc' => ?_) (fun p hp => hg.parent i n p hn (hparent ▸ hp)) fun p m place hm hc => ?_
  · rcases hheld place c hc with ⟨hold, hplace⟩ | ⟨hnew, hplace⟩
    · obtain ⟨hlt, m, hm, hparent, hlink⟩ := hg.held i n place c hn hold
      exact ⟨hlt, m, hm, hparent, hplace.trans hlink⟩
    · obtain ⟨hlt, -, m, hm, hparent, hlink⟩ := hchild c hnew
      exact ⟨hlt, m, hm, hparent, hlink ▸ hplace⟩
  · rcases hheld place c hc with ⟨hold, -⟩ | ⟨hnew, -⟩
    · rcases hheld place' c hc' with ⟨hold', -⟩ | ⟨hnew, -⟩
      · exact hg.apart n hmem _ _ c hold hold'
      · exact honce _ _ c hnew hc hc'
    · exact honce _ _ c hnew hc hc'
  · obtain ⟨-, child, hchild, hparent', hlink'⟩ := hg.held p m place i hm hc
    obtain rfl : n = child := Option.some.inj (hn ▸ hchild)
    exact ⟨hparent.trans hparent', hlink ▸ hlink'⟩

/-- A block that nobody holds can be plugged into a socket of an earlier block. -/
theorem Wired.plug (hg : g.Wired) {i : Nat} {n : Node} (hn : g.nodes[i]? = some n) (name : String) (kind : SocketKind)
    {child : Option Nat} (hchild : ∀ c, child = some c → g.Free i c) : (g.plug i name kind child).Wired := by
  rw [Graph.plug, link_of_kind]
  obtain ⟨hattached, hn', hheld⟩ := hg.attach hn kind.link hchild
  have hnodup := Entries.nodup_keys_set NodeSocket.name (hg.sockets n (List.mem_of_getElem? hn)) ⟨name, kind, child⟩
  have hcases : ∀ {k : Nat} {t : NodeSocket}, (setSocket n.sockets ⟨name, kind, child⟩)[k]? = some t →
      n.sockets[k]? = some t ∨ t = ⟨name, kind, child⟩ := Entries.getElem?_set NodeSocket.name
  refine hattached.take hn' ⟨rfl, rfl, rfl, rfl⟩ hnodup child kind.link (fun c hc => ?_)
    (fun place c hc => ?_) fun place place' c hc hplace hplace' => ?_
  · exact ⟨(hchild c hc).lt, fun place => (hchild c hc).loose i n place hn, hheld c hc⟩
  · cases place with
    | next => exact .inl ⟨hc, rfl⟩
    | socket k =>
      obtain ⟨t, ht, hc⟩ := Option.bind_eq_some_iff.1 hc
      rcases hcases ht with hold | rfl
      · exact .inl ⟨Option.bind_eq_some_iff.2 ⟨t, hold, hc⟩, by simp only [Node.link?, ht, hold]⟩
      · exact .inr ⟨hc, by simp only [Node.link?, ht, Option.map_some]⟩
  · -- the new child stands in the new socket alone, and no other socket has its name
    have hnew : ∀ place, Node.held? { n with sockets := setSocket n.sockets ⟨name, kind, child⟩ } place = some c →
        ∃ k, place = .socket k ∧ (setSocket n.sockets ⟨name, kind, child⟩)[k]? = some ⟨name, kind, child⟩ := by
      rintro (k | _) hplace
      · obtain ⟨t, ht, hc'⟩ := Option.bind_eq_some_iff.1 hplace
        rcases hcases ht with hold | rfl
        · exact absurd (Option.bind_eq_some_iff.2 ⟨t, hold, hc'⟩) ((hchild c hc).loose i n (.socket k) hn)
        · exact ⟨k, rfl, ht⟩
      · exact absurd hplace ((hchild c hc).loose i n .next hn)
    obtain ⟨k, rfl, hk⟩ := hnew place hplace
    obtain ⟨k', rfl, hk'⟩ := hnew place' hplace'
    have hlt := (List.getElem?_eq_some_iff.1 hk).1
    have hsame : k = k' := (List.getElem?_inj (by rwa [List.length_map]) hnodup).1 (by
      rw [List.getElem?_map, List.getElem?_map]
      exact congrArg (Option.map NodeSocket.name) (hk.trans hk'.symm))
    rw [hsame]

/-- A block that nobody holds can be chained behind an earlier one. -/
theorem Wired.chain (hg : g.Wired) {i : Nat} {n : Node} (hn : g.nodes[i]? = some n) {child : Option Nat}
    (hchild : ∀ c, child = some c → g.Free i c) : (g.chain i child).Wired := by
  obtain ⟨hattached, hn', hheld⟩ := hg.attach hn .next hchild
  have hloose : ∀ c, child = some c → ∀ place, n.held? place ≠ some c := fun c hc place => (hchild c hc).loose i n place hn
  refine hattached.take hn' ⟨rfl, rfl, rfl, rfl⟩ (hg.sockets n (List.mem_of_getElem? hn)) child .next
    (fun c hc => ⟨(hchild c hc).lt, hloose c hc, hheld c hc⟩) (fun place c hc => ?_)
    fun place place' c hc hplace hplace' => ?_
  · cases place with
    | next => exact .inr ⟨hc, rfl⟩
    | socket k => exact .inl ⟨hc, rfl⟩
  · have hnew : ∀ place, Node.held? { n with next := child } place = some c → place = .next := by
      rintro (k | _) hplace
      · exact absurd hplace (hloose c hc (.socket k))
      · rfl
    rw [hnew place hplace, hnew place' hplace']

/-- A block that nobody holds can be put at the top. -/
theorem Wired.place (hg : g.Wired) {i : Nat} {n : Node} (hn : g.nodes[i]? = some n) (hloose : g.Loose i) :
    (g.place i).Wired := by
  have hrehung : (g.update i fun n => { n with parent := none, link := .top, placed := true }).Wired :=
    hg.rehang hn hloose ⟨rfl, rfl, rfl, rfl⟩ fun p hp => by cases hp
  exact ⟨hrehung.kind, hrehung.fields, hrehung.sockets, hrehung.held, hrehung.apart, hrehung.parent⟩

end Steps
end Graph
end Blockwright
