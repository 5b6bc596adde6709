import Mathlib.Data.List.Nodup
import Blockwright.Proofs.Attempts
import Blockwright.Proofs.Entries
import Blockwright.Proofs.Workspace.Trees
import Blockwright.Workspace.Decode
/-!
# What reading a document makes of a block

A block that is read from a document hangs from its holder by the link of its place: a top block
from nothing, a block in a socket by the kind of the socket, a chained block from the one before.
The kind of a socket is what the classifier and the name of the socket say. This holds of every
block of the tree, by induction on the nesting.
-/

namespace Blockwright

/-! ## Blocks that were read -/

theorem Block.mem_setSocket {sockets : List Socket} {s t : Socket} (h : t ∈ setSocket sockets s) : t ∈ sockets ∨ t = s :=
  Entries.mem_set Socket.name h

/-- When no two fields have one name, a field is read back by its name. -/
theorem Head.written_of_mem {h : Head} (hnodup : (h.fields.map (·.name)).Nodup) {f : Field} (hf : f ∈ h.fields) :
    h.written f.name = f.value := by
  have hfound : h.fields.find? (fun g => g.name = f.name) = some f := by
    cases hfind : h.fields.find? (fun g => g.name = f.name) with
    | none => exact absurd (List.find?_eq_none.1 hfind f hf) (by simp)
    | some g =>
      have hname : g.name = f.name := by simpa using List.find?_some hfind
      rw [List.inj_on_of_nodup_map hnodup (List.mem_of_find?_eq_some hfind) hf hname]
  rw [written, written?, hfound]
  rfl

/-- The link of a block that is plugged into a socket. -/
def SocketKind.link : SocketKind → Link
  | .value => .value
  | .statement => .statement

/-- The block is linked to what it holds as reading it does, no two fields have one name, and a field
that refers to a variable has an id that is well formed. -/
structure Block.Wired (classify : Option Classifier) (b : Block) : Prop where
  names : (b.head.fields.map (·.name)).Nodup
  id : ∀ f ∈ b.head.fields, f.isVariable = true → ∃ id : String, f.value = .ofString id
  kind : ∀ s ∈ b.sockets, s.kind = socketKind classify b.head.kind s.name
  plugged : ∀ s ∈ b.sockets, ∀ c, s.plugged = some c → c.head.link = s.kind.link
  next : ∀ c, b.next = some c → c.head.link = .next

namespace Workspace

variable {classify : Option Classifier}

/-- The block hangs by a link, and every block of it is wired. -/
def Hung (classify : Option Classifier) (link : Link) (b : Block) : Prop :=
  b.head.link = link ∧ ∀ b' ∈ b.blocks, b'.Wired classify

/-- A socket of a block of some kind that was read. -/
def SocketRead (classify : Option Classifier) (kind : String) (s : Socket) : Prop :=
  s.kind = socketKind classify kind s.name ∧ ∀ c, s.plugged = some c → Hung classify s.kind.link c

/-- A field whose id is well formed if it refers to a variable. -/
def FieldRead (f : Field) : Prop := f.isVariable = true → ∃ id : String, f.value = .ofString id

/-- Fields that were read, no two of one name. -/
def FieldsRead (fields : List Field) : Prop := (fields.map (·.name)).Nodup ∧ ∀ f ∈ fields, FieldRead f

theorem fieldsRead_setField {fields : List Field} {f : Field} (hfields : FieldsRead fields) (hf : FieldRead f) :
    FieldsRead (Head.setField fields f) := by
  refine ⟨Entries.nodup_keys_set Field.name hfields.1 f, fun g hg => ?_⟩
  rcases Entries.mem_set Field.name hg with hg | rfl
  · exact hfields.2 g hg
  · exact hf

theorem fieldRead_readField? {name : String} {j : Json} {f : Field} (h : readField? name j = some f) :
    FieldRead f := by
  intro hvariable
  cases j with
  | object ms =>
    obtain ⟨value, hvalue, rfl⟩ := Option.map_eq_some_iff.1 h
    obtain ⟨id, -, hid⟩ := Option.bind_eq_some_iff.1 hvalue
    exact ⟨id, (Option.some.inj hid).symm⟩
  | str s => cases h; cases hvariable
  | bool b => cases h; cases hvariable
  | null => cases h; cases hvariable
  | num text => cases h; cases hvariable
  | arr source items => cases h; cases hvariable

theorem fieldsRead_readFields (id kind : String) (members : List (String × Json)) :
    Yields FieldsRead (fun _ => True) (readFields id kind members) := by
  refine .foldlM members (by simp [FieldsRead]) fun fields ⟨name, j⟩ hfields => ?_
  dsimp only
  split
  · next f hread => exact fieldsRead_setField hfields (fieldRead_readField? hread)
  · trivial

theorem wired_of_read {head : Head} {sockets : List Socket} {next : Option Block}
    (hfields : FieldsRead head.fields) (hsockets : ∀ s ∈ sockets, SocketRead classify head.kind s)
    (hnext : ∀ c, next = some c → Hung classify .next c) :
    Hung classify head.link ⟨head, sockets, next⟩ := by
  refine ⟨rfl, fun b hb => ?_⟩
  rcases Block.mem_blocks.1 hb with rfl | ⟨s, hs, c, hc, hb⟩ | ⟨c, hc, hb⟩
  · exact ⟨hfields.1, hfields.2, fun s hs => (hsockets s hs).1, fun s hs c hc => ((hsockets s hs).2 c hc).1,
      fun c hc => (hnext c hc).1⟩
  · exact ((hsockets s hs).2 c hc).2 b hb
  · exact (hnext c hc).2 b hb

mutual

theorem hung_readBlock (fuel : Nat) (link : Link) (j : Json) :
    Yields (Hung classify link) (fun _ => True) (readBlock classify fuel link j) := by
  cases fuel with
  | zero => rw [readBlock]; trivial
  | succ fuel =>
    rw [readBlock]
    cases BlockMembers.read? j with
    | none => trivial
    | some m =>
      dsimp only
      split
      · trivial
      · refine .bind .anyway fun extra _ => ?_
        refine .bind .anyway fun fieldMembers _ => ?_
        refine .bind (fieldsRead_readFields ..) fun fields hfields => ?_
        refine .bind .anyway fun inputMembers _ => ?_
        refine .bind (socketRead_readSockets fuel m.id m.kind [] inputMembers (by simp)) fun sockets hsockets => ?_
        split
        · next target _ =>
          have hchained : Yields (fun next => ∀ c, next = some c → Hung classify .next c) (fun _ => True)
              ((readBlock classify fuel .next target).map some) :=
            (hung_readBlock fuel .next target).map fun b hb c hc => Option.some.inj hc ▸ hb
          exact hchained.bind fun next hnext => wired_of_read hfields hsockets hnext
        · exact wired_of_read hfields hsockets (by simp)

theorem socketRead_readSockets (fuel : Nat) (id kind : String) (sockets : List Socket)
    (members : List (String × Json)) (hsockets : ∀ s ∈ sockets, SocketRead classify kind s) :
    Yields (fun sockets => ∀ s ∈ sockets, SocketRead classify kind s) (fun _ => True)
      (readSockets classify fuel id kind sockets members) := by
  cases fuel with
  | zero => rw [readSockets]; trivial
  | succ fuel =>
    cases members with
    | nil => rw [readSockets]; exact hsockets
    | cons member rest =>
      obtain ⟨name, j⟩ := member
      rw [readSockets]
      cases Connection.reader {} j with
      | none => trivial
      | some c =>
        dsimp only
        have hrest : ∀ plugged, (∀ b, plugged = some b → Hung classify (socketKind classify kind name).link b) →
            Yields (fun sockets => ∀ s ∈ sockets, SocketRead classify kind s) (fun _ => True)
              (readSockets classify fuel id kind
                (Block.setSocket sockets ⟨name, socketKind classify kind name, plugged⟩) rest) := by
          intro plugged hplugged
          refine socketRead_readSockets fuel id kind _ rest fun s hs => ?_
          rcases Block.mem_setSocket hs with hs | rfl
          · exact hsockets s hs
          · exact ⟨rfl, hplugged⟩
        have hlink : (if socketKind classify kind name = .statement then Link.statement else .value)
            = (socketKind classify kind name).link := by
          cases socketKind classify kind name <;> rfl
        rw [hlink]
        split
        · next target _ =>
          have hplugged : Yields (fun plugged => ∀ b, plugged = some b →
              Hung classify (socketKind classify kind name).link b) (fun _ => True)
              ((readBlock classify fuel (socketKind classify kind name).link target).map some) :=
            (hung_readBlock fuel _ target).map fun b hb c hc => Option.some.inj hc ▸ hb
          exact hplugged.bind hrest
        · exact hrest none (by simp)

end

theorem hung_readTop (fuel i : Nat) (top : List Json) :
    Yields (fun bs => ∀ b ∈ bs, Hung classify .top b) (fun _ => True) (readTop classify fuel i top) := by
  induction top generalizing i with
  | nil => rw [readTop]; simp [Yields]
  | cons j rest ih =>
    rw [readTop]
    refine .bind (.reworded _ (hung_readBlock fuel .top j)) fun b hb => ?_
    refine (ih (i + 1)).bind fun bs hbs => ?_
    exact List.forall_mem_cons.2 ⟨hb, hbs⟩

/-- A top block that was read from a document hangs from nothing, and all its blocks are wired. -/
theorem hung_of_decode {document : Bytes} {ws : Workspace} (h : decode classify document = .ok ws) :
    ∀ b ∈ ws.top, Hung classify .top b := by
  unfold decode at h
  split at h
  · cases h
  · next top vars options _ =>
    have hread : Yields (fun ws : Workspace => ∀ b ∈ ws.top, Hung classify .top b) (fun _ => True)
        (do let top ← readTop classify (document.length + 1) 0 top
            return { top, vars, oneBased := options.oneBased, reserved := options.reserved.items }) :=
      (hung_readTop _ _ top).bind fun top htop => htop
    exact hread.ok h

theorem wired_of_decode {document : Bytes} {ws : Workspace} (h : decode classify document = .ok ws) :
    ∀ b ∈ ws.blocks, b.Wired classify := by
  intro b hb
  obtain ⟨root, hroot, hb⟩ := List.mem_flatMap.1 hb
  exact (hung_of_decode h root hroot).2 b hb

end Workspace
end Blockwright
