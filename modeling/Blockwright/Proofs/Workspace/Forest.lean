import Blockwright.Proofs.Workspace.Decoded
import Blockwright.Workspace.Graph
/-!
# Forests of blocks

Blocks that remember what they hang from make up a forest when every one is held at one place and
says so. Holders come before what they hold, so the blocks below a block can be listed without end
to the recursion in sight, and no block is listed twice.
-/

namespace Blockwright

/-- Where a block holds another one: in the socket of a number, or behind it. -/
inductive Place where
  | socket (k : Nat)
  | next
deriving DecidableEq, Repr

namespace Node

/-- What a block holds at a place. -/
def held? (n : Node) : Place → Option Nat
  | .socket k => n.sockets[k]?.bind (·.plugged)
  | .next => n.next

/-- What kind of socket a place is; none when it is not a socket. -/
def kind? (n : Node) : Place → Option SocketKind
  | .socket k => n.sockets[k]?.map (·.kind)
  | .next => none

/-- How a block is linked at a place. -/
def link? (n : Node) : Place → Option Link
  | .socket k => n.sockets[k]?.map (·.kind.link)
  | .next => some .next

/-- A place links its block as a value just when it is a value socket. -/
theorem link?_eq_value_iff {n : Node} {place : Place} : n.link? place = some .value ↔ n.kind? place = some .value := by
  cases place with
  | next => simp [link?, kind?]
  | socket k =>
    rw [link?, kind?]
    cases n.sockets[k]? with
    | none => simp
    | some s => cases hs : s.kind <;> simp [hs, SocketKind.link]

/-- The blocks in the sockets, in the order of the sockets. -/
def plugged (n : Node) : List Nat := n.sockets.filterMap (·.plugged)

/-- All that a block holds: what is plugged in, and then what is chained behind. -/
def children (n : Node) : List Nat := n.plugged ++ n.next.toList

theorem mem_plugged {n : Node} {c : Nat} : c ∈ n.plugged ↔ ∃ k, n.held? (.socket k) = some c := by
  rw [plugged, List.mem_filterMap]
  constructor
  · rintro ⟨s, hs, hc⟩
    obtain ⟨k, hk⟩ := List.mem_iff_getElem?.1 hs
    exact ⟨k, Option.bind_eq_some_iff.2 ⟨s, hk, hc⟩⟩
  · rintro ⟨k, hk⟩
    obtain ⟨s, hs, hc⟩ := Option.bind_eq_some_iff.1 hk
    exact ⟨s, List.mem_of_getElem? hs, hc⟩

theorem mem_children {n : Node} {c : Nat} : c ∈ n.children ↔ ∃ place, n.held? place = some c := by
  rw [children, List.mem_append, mem_plugged, Option.mem_toList]
  constructor
  · rintro (⟨k, hk⟩ | hc)
    · exact ⟨.socket k, hk⟩
    · exact ⟨.next, hc⟩
  · rintro ⟨k | _, hc⟩
    · exact .inl ⟨k, hc⟩
    · exact .inr hc

/-- A block that holds no other one twice has no child twice. -/
theorem nodup_children {n : Node}
    (h : ∀ place place' c, n.held? place = some c → n.held? place' = some c → place = place') : n.children.Nodup := by
  refine List.nodup_append.2 ⟨?_, ?_, fun c hc c' hc' heq => ?_⟩
  · rw [plugged, List.Nodup, List.pairwise_filterMap, List.pairwise_iff_getElem]
    intro k k' hk hk' hlt c hc c' hc' heq
    have hplace : n.held? (.socket k) = some c := by rw [held?, List.getElem?_eq_getElem hk]; exact hc
    have hplace' : n.held? (.socket k') = some c := by rw [held?, List.getElem?_eq_getElem hk', heq]; exact hc'
    have hsame := h _ _ c hplace hplace'
    injection hsame with hk
    omega
  · cases n.next with
    | none => exact List.nodup_nil
    | some c => exact List.nodup_singleton c
  · obtain ⟨k, hk⟩ := mem_plugged.1 hc
    have hnext : n.held? .next = some c := heq ▸ Option.mem_toList.1 hc'
    cases h _ _ c hk hnext

end Node

namespace Graph

variable {g : Graph}

/-- What a block of a number holds at a place. -/
def held? (g : Graph) (p : Nat) (place : Place) : Option Nat := g.nodes[p]?.bind (·.held? place)

/-- Every block has a kind, and no two fields or sockets of one name. It comes after the block that it
remembers. What it holds comes later, is held there only, and remembers how. -/
structure Wired (g : Graph) : Prop where
  kind : ∀ n ∈ g.nodes, n.kind ≠ ""
  fields : ∀ n ∈ g.nodes, (n.fields.map (·.name)).Nodup
  sockets : ∀ n ∈ g.nodes, (n.sockets.map (·.name)).Nodup
  held : ∀ (p : Nat) (n : Node) (place : Place) (c : Nat), g.nodes[p]? = some n → n.held? place = some c →
    p < c ∧ ∃ child : Node, g.nodes[c]? = some child ∧ child.parent = some p ∧ n.link? place = some child.link
  apart : ∀ n ∈ g.nodes, ∀ place place' c, n.held? place = some c → n.held? place' = some c → place = place'
  parent : ∀ (i : Nat) (n : Node) (p : Nat), g.nodes[i]? = some n → n.parent = some p → p < i

/-- The blocks at the top are there once each and hang from nothing. -/
structure Rooted (g : Graph) : Prop where
  nodup : g.top.Nodup
  top : ∀ i ∈ g.top, ∃ n : Node, g.nodes[i]? = some n ∧ n.parent = none ∧ n.link = .top ∧ n.placed = true

/-- A block hangs below another one, or is that one. -/
inductive Below (g : Graph) (i : Nat) : Nat → Prop
  | self : Below g i i
  | held {p c : Nat} {n : Node} {place : Place} : Below g i p → g.nodes[p]? = some n → n.held? place = some c →
    Below g i c

/-- A block can be reached from the top. -/
def Reaches (g : Graph) (i : Nat) : Prop := ∃ t ∈ g.top, g.Below t i

namespace Below

theorem trans {i j k : Nat} (h : g.Below i j) (h' : g.Below j k) : g.Below i k := by
  induction h' with
  | self => exact h
  | held _ hn hc ih => exact .held ih hn hc

/-- What is below a block is the block or below something that it holds. -/
theorem cases_child {i j : Nat} (h : g.Below i j) :
    j = i ∨ ∃ n place c, g.nodes[i]? = some n ∧ n.held? place = some c ∧ g.Below c j := by
  induction h with
  | self => exact .inl rfl
  | held _ hn hc ih =>
    rcases ih with rfl | ⟨n, place, c, hi, hplace, hbelow⟩
    · exact .inr ⟨_, _, _, hn, hc, .self⟩
    · exact .inr ⟨n, place, c, hi, hplace, .held hbelow hn hc⟩

variable (hg : g.Wired)
include hg

theorem le {i j : Nat} (h : g.Below i j) : i ≤ j := by
  induction h with
  | self => exact Nat.le_refl i
  | held _ hn hc ih => exact Nat.le_trans ih (Nat.le_of_lt (hg.held _ _ _ _ hn hc).1)

/-- A block is below every holder of a block below it. -/
theorem of_le {i j k : Nat} (hi : g.Below i k) (hj : g.Below j k) (hle : i ≤ j) : g.Below i j := by
  induction hj with
  | self => exact hi
  | @held p c n place hjp hn hc ih =>
    obtain ⟨hlt, child, hchild, hparent, -⟩ := hg.held _ _ _ _ hn hc
    cases hi with
    | self => exact absurd (hjp.le hg) (by omega)
    | @held p' _ n' place' hip hn' hc' =>
      obtain ⟨-, child', hchild', hparent', -⟩ := hg.held _ _ _ _ hn' hc'
      obtain rfl : child = child' := Option.some.inj (hchild ▸ hchild')
      obtain rfl : p = p' := Option.some.inj (hparent ▸ hparent')
      exact ih hip

end Below

namespace Wired

variable (hg : g.Wired)
include hg

/-- A block is held at one place. -/
theorem held_unique {p p' c : Nat} {place place' : Place} (h : g.held? p place = some c) (h' : g.held? p' place' = some c) :
    p' = p ∧ place' = place := by
  obtain ⟨n, hn, hc⟩ := Option.bind_eq_some_iff.1 h
  obtain ⟨n', hn', hc'⟩ := Option.bind_eq_some_iff.1 h'
  obtain ⟨-, child, hchild, hparent, -⟩ := hg.held _ _ _ _ hn hc
  obtain ⟨-, child', hchild', hparent', -⟩ := hg.held _ _ _ _ hn' hc'
  obtain rfl : child = child' := Option.some.inj (hchild ▸ hchild')
  obtain rfl : p = p' := Option.some.inj (hparent ▸ hparent')
  obtain rfl : n = n' := Option.some.inj (hn ▸ hn')
  exact ⟨rfl, hg.apart n (List.mem_of_getElem? hn) _ _ c hc' hc⟩

end Wired

/-! ## Walking -/

/-- The block of a number, then everything plugged into it, then everything chained behind it; `fuel`
bounds the nesting. -/
def walkFrom (g : Graph) : Nat → Nat → List Nat
  | 0, _ => []
  | fuel + 1, i =>
    match g.nodes[i]? with
    | none => []
    | some n => i :: n.children.flatMap (g.walkFrom fuel)

/-- The block of a number and all blocks below it. -/
def walk (g : Graph) (i : Nat) : List Nat := g.walkFrom g.nodes.length i

/-- All blocks below the top. -/
def allBlocks (g : Graph) : List Nat := g.top.flatMap g.walk

section Walk

variable (hg : g.Wired)
include hg

/-- A walk has enough fuel for the blocks that come after the first. -/
theorem walkFrom_eq (fuel fuel' : Nat) {i : Nat} (h : g.nodes.length ≤ fuel + i) (h' : g.nodes.length ≤ fuel' + i) :
    g.walkFrom fuel i = g.walkFrom fuel' i := by
  have hlast : ∀ fuel i, g.nodes.length ≤ i → g.walkFrom fuel i = [] := by
    rintro (_ | fuel) i hi
    · rfl
    · rw [walkFrom, List.getElem?_eq_none hi]
  induction fuel generalizing fuel' i with
  | zero => rw [hlast _ _ (by omega), hlast _ _ (by omega)]
  | succ fuel ih =>
    cases fuel' with
    | zero => rw [hlast _ _ (by omega), hlast _ _ (by omega)]
    | succ fuel' =>
      rw [walkFrom, walkFrom]
      cases hn : g.nodes[i]? with
      | none => rfl
      | some n =>
        have hchildren : ∀ c ∈ n.children, g.walkFrom fuel c = g.walkFrom fuel' c := by
          intro c hc
          obtain ⟨place, hplace⟩ := Node.mem_children.1 hc
          have hlt := (hg.held i n place c hn hplace).1
          exact ih _ (by omega) (by omega)
        exact congrArg (i :: ·) (List.flatMap_congr hchildren)

theorem walk_eq {i : Nat} {n : Node} (hn : g.nodes[i]? = some n) : g.walk i = i :: n.children.flatMap g.walk := by
  have hlt := (List.getElem?_eq_some_iff.1 hn).1
  rw [walk, walkFrom_eq hg _ (g.nodes.length - 1 + 1) (by omega) (by omega), walkFrom, hn]
  refine congrArg (i :: ·) (List.flatMap_congr fun c hc => ?_)
  obtain ⟨place, hplace⟩ := Node.mem_children.1 hc
  have := (hg.held i n place c hn hplace).1
  exact walkFrom_eq hg _ _ (by omega) (by omega)

theorem mem_walk {i j : Nat} : j ∈ g.walk i ↔ i < g.nodes.length ∧ g.Below i j := by
  induction hk : g.nodes.length - i using Nat.strongRecOn generalizing i with
  | _ k ih =>
    cases hn : g.nodes[i]? with
    | none =>
      have hout : ¬ i < g.nodes.length := by simpa using hn
      rw [walk, walkFrom_eq hg _ 0 (by omega) (by omega)]
      simp [walkFrom, hout]
    | some n =>
      have hin := (List.getElem?_eq_some_iff.1 hn).1
      have hchild : ∀ {place c}, n.held? place = some c → i < c ∧ c < g.nodes.length := by
        intro place c hc
        obtain ⟨hlt, child, hchild, -⟩ := hg.held i n place c hn hc
        exact ⟨hlt, (List.getElem?_eq_some_iff.1 hchild).1⟩
      rw [walk_eq hg hn, List.mem_cons, List.mem_flatMap]
      constructor
      · rintro (rfl | ⟨c, hc, hj⟩)
        · exact ⟨hin, .self⟩
        · obtain ⟨place, hplace⟩ := Node.mem_children.1 hc
          have hlt := hchild hplace
          exact ⟨hin, (Below.self.held hn hplace).trans ((ih _ (by omega) rfl).1 hj).2⟩
      · rintro ⟨-, hbelow⟩
        rcases hbelow.cases_child with rfl | ⟨n', place, c, hn', hplace, hbelow⟩
        · exact .inl rfl
        · obtain rfl : n = n' := Option.some.inj (hn ▸ hn')
          have hlt := hchild hplace
          exact .inr ⟨c, Node.mem_children.2 ⟨place, hplace⟩, (ih _ (by omega) rfl).2 ⟨hlt.2, hbelow⟩⟩

/-- Blocks that hang from one place, or from nothing, have nothing in common below them. -/
theorem disjoint_walk {i j : Nat} {n m : Node} (hn : g.nodes[i]? = some n) (hm : g.nodes[j]? = some m)
    (hparent : m.parent = n.parent) (hne : i ≠ j) : (g.walk i).Disjoint (g.walk j) := by
  have hnever : ∀ {i j : Nat} {n m : Node}, g.nodes[i]? = some n → g.nodes[j]? = some m → m.parent = n.parent →
      i ≠ j → ¬ g.Below i j := by
    intro i j n m hn hm hparent hne hbelow
    cases hbelow with
    | self => exact hne rfl
    | @held p _ n' place hip hn' hc =>
      obtain ⟨-, child, hchild, hp, -⟩ := hg.held _ _ _ _ hn' hc
      obtain rfl : m = child := Option.some.inj (hm ▸ hchild)
      -- the holder of both comes before them, so it is not below one of them
      have hlt := hg.parent _ _ _ hn (hparent ▸ hp)
      have hle := hip.le hg
      omega
  intro k hi hj
  obtain ⟨-, hi⟩ := (mem_walk hg).1 hi
  obtain ⟨-, hj⟩ := (mem_walk hg).1 hj
  rcases Nat.le_total i j with hle | hle
  · exact hnever hn hm hparent hne (hi.of_le hg hj hle)
  · exact hnever hm hn hparent.symm hne.symm (hj.of_le hg hi hle)

theorem nodup_walk (i : Nat) : (g.walk i).Nodup := by
  induction hk : g.nodes.length - i using Nat.strongRecOn generalizing i with
  | _ k ih =>
    cases hn : g.nodes[i]? with
    | none =>
      have hout : ¬ i < g.nodes.length := by simpa using hn
      rw [walk, walkFrom_eq hg _ 0 (by omega) (by omega)]
      exact List.nodup_nil
    | some n =>
      have hin := (List.getElem?_eq_some_iff.1 hn).1
      have hchild : ∀ c ∈ n.children, i < c ∧ ∃ child, g.nodes[c]? = some child ∧ child.parent = some i := by
        intro c hc
        obtain ⟨place, hplace⟩ := Node.mem_children.1 hc
        obtain ⟨hlt, child, hchild, hparent, -⟩ := hg.held i n place c hn hplace
        exact ⟨hlt, child, hchild, hparent⟩
      rw [walk_eq hg hn]
      refine List.nodup_cons.2 ⟨fun hi => ?_, List.nodup_flatMap.2 ⟨fun c hc => ?_, ?_⟩⟩
      · obtain ⟨c, hc, hi⟩ := List.mem_flatMap.1 hi
        have hle := ((mem_walk hg).1 hi).2.le hg
        have hlt := (hchild c hc).1
        omega
      · have hlt := (hchild c hc).1
        exact ih _ (by omega) c rfl
      · refine (Node.nodup_children (hg.apart n (List.mem_of_getElem? hn))).imp_of_mem fun {c c'} hc hc' hne => ?_
        obtain ⟨-, child, hc, hparent⟩ := hchild c hc
        obtain ⟨-, child', hc', hparent'⟩ := hchild c' hc'
        exact disjoint_walk hg hc hc' (hparent'.trans hparent.symm) hne

end Walk

section Top

variable (hg : g.Wired) (htop : g.Rooted)
include hg htop

theorem mem_allBlocks {i : Nat} : i ∈ g.allBlocks ↔ g.Reaches i := by
  rw [allBlocks, List.mem_flatMap]
  refine exists_congr fun t => and_congr_right fun ht => ?_
  obtain ⟨n, hn, -⟩ := htop.top t ht
  rw [mem_walk hg, and_iff_right (List.getElem?_eq_some_iff.1 hn).1]

theorem nodup_allBlocks : g.allBlocks.Nodup := by
  refine List.nodup_flatMap.2 ⟨fun t _ => nodup_walk hg t, htop.nodup.imp_of_mem fun {t t'} ht ht' hne => ?_⟩
  obtain ⟨n, hn, hparent, -⟩ := htop.top t ht
  obtain ⟨n', hn', hparent', -⟩ := htop.top t' ht'
  exact disjoint_walk hg hn hn' (hparent'.trans hparent.symm) hne

theorem there_of_reaches {i : Nat} (h : g.Reaches i) : ∃ n, g.nodes[i]? = some n := by
  obtain ⟨t, ht, hbelow⟩ := h
  cases hbelow with
  | self =>
    obtain ⟨n, hn, -⟩ := htop.top i ht
    exact ⟨n, hn⟩
  | held _ hp hc =>
    obtain ⟨-, n, hn, -⟩ := hg.held _ _ _ _ hp hc
    exact ⟨n, hn⟩

/-- Following the holders of a block upward ends at the top. -/
theorem owned_of_reaches {i fuel : Nat} (h : g.Reaches i) (hfuel : i < fuel) : g.owned fuel i = true := by
  obtain ⟨t, ht, hbelow⟩ := h
  induction hbelow generalizing fuel with
  | self =>
    obtain ⟨n, hn, hparent, -, hplaced⟩ := htop.top t ht
    cases fuel with
    | zero => omega
    | succ fuel => simp [owned, hn, hparent, hplaced]
  | held _ hn hc ih =>
    obtain ⟨hlt, child, hchild, hparent, -⟩ := hg.held _ _ _ _ hn hc
    cases fuel with
    | zero => omega
    | succ fuel =>
      simp only [owned, hchild, hparent]
      exact ih (by omega)

end Top

end Graph
end Blockwright
