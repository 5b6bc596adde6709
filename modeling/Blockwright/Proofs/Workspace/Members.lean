import Mathlib.Data.List.Induction
import Blockwright.Proofs.Workspace.Decoded
/-!
# Members that come again

The fields and the sockets of a block are members of a document. A name that comes again keeps the
place where it came first and has the value that came last. Together with what stands in the sockets
and behind the block, this says what a block is read from.
-/

namespace Blockwright

/-- The last value of a name. -/
def lastMember? (members : List (String × Json)) (name : String) : Option Json := members.reverse.lookup name

/-- Elements stand for members: each name once, where it came first. -/
def SameNames {α : Type} (name : α → String) (members : List (String × Json)) (elements : List α) : Prop :=
  elements.map name = (members.map Prod.fst).eraseDups

theorem lastMember?_concat (members : List (String × Json)) (member : String × Json) (name : String) :
    lastMember? (members ++ [member]) name = if name = member.1 then some member.2 else lastMember? members name := by
  rw [lastMember?, List.reverse_concat, Entries.lookup_cons_eq]
  rfl

/-- An element that is set for the next member. -/
theorem SameNames.set {α : Type} {name : α → String} {members : List (String × Json)} {elements : List α}
    (h : SameNames name members elements) (x : α) (j : Json) :
    SameNames name (members ++ [(name x, j)]) (Entries.set name elements x) := by
  have hnames : (members.map Prod.fst ++ [name x]).eraseDups = if name x ∈ members.map Prod.fst then
      (members.map Prod.fst).eraseDups else (members.map Prod.fst).eraseDups ++ [name x] := by
    rw [List.eraseDups_append]
    split_ifs with hmem
    · rw [List.removeAll, List.filter_cons_of_neg (by simpa using hmem)]
      exact List.append_nil _
    · rw [List.removeAll, List.filter_cons_of_pos (by simpa using hmem)]
      rfl
  rw [SameNames, Entries.keys_set, h, List.map_append, List.map_singleton, hnames]
  simp only [List.mem_eraseDups]

namespace Block

variable (classify : Option Classifier)

open Workspace (BlockMembers Connection objectMembers readField?)

mutual

/-- What a block is read from. -/
def ReadFrom : Block → Json → Prop
  | ⟨head, sockets, next⟩, j => ∃ m fields inputs, BlockMembers.read? j = some m ∧ m.kind ≠ "" ∧ head.kind = m.kind ∧
      objectMembers m.fields = .ok fields ∧ SameNames Field.name fields head.fields ∧
      (∀ f ∈ head.fields, ∃ j, lastMember? fields f.name = some j ∧ readField? f.name j = some f) ∧
      objectMembers m.inputs = .ok inputs ∧ SameNames Socket.name inputs sockets ∧
      SocketsReadFrom m.kind inputs sockets ∧ NextReadFrom next (m.next.bind (·.target?))

/-- What sockets are read from. -/
def SocketsReadFrom (kind : String) (inputs : List (String × Json)) : List Socket → Prop
  | [] => True
  | ⟨name, socket, none⟩ :: rest => (∃ j c, lastMember? inputs name = some j ∧ Connection.reader {} j = some c ∧
      socket = socketKind classify kind name ∧ c.target? = none) ∧ SocketsReadFrom kind inputs rest
  | ⟨name, socket, some b⟩ :: rest => (∃ j c target, lastMember? inputs name = some j ∧
      Connection.reader {} j = some c ∧ socket = socketKind classify kind name ∧ c.target? = some target ∧
      ReadFrom b target) ∧ SocketsReadFrom kind inputs rest

/-- What is chained behind a block is read from what the document has there. -/
def NextReadFrom : Option Block → Option Json → Prop
  | none, target => target = none
  | some b, target => ∃ j, target = some j ∧ ReadFrom b j

end

/-- What a socket is read from: the last member of its name. -/
def SocketReadFrom (kind : String) (inputs : List (String × Json)) (s : Socket) : Prop :=
  ∃ j c, lastMember? inputs s.name = some j ∧ Connection.reader {} j = some c ∧
    s.kind = socketKind classify kind s.name ∧ Option.Rel (ReadFrom classify) s.plugged c.target?

theorem socketsReadFrom_iff {kind : String} {inputs : List (String × Json)} {sockets : List Socket} :
    SocketsReadFrom classify kind inputs sockets ↔ ∀ s ∈ sockets, SocketReadFrom classify kind inputs s := by
  induction sockets with
  | nil => simp [SocketsReadFrom]
  | cons s rest ih =>
    obtain ⟨name, socket, _ | b⟩ := s
    · rw [SocketsReadFrom, List.forall_mem_cons, ih]
      refine and_congr_left fun _ => exists_congr fun j => exists_congr fun c => ?_
      refine and_congr_right fun _ => and_congr_right fun _ => and_congr_right fun _ => ?_
      dsimp only
      constructor
      · intro h
        rw [h]
        exact .none
      · intro h
        generalize c.target? = target at h
        cases h
        rfl
    · rw [SocketsReadFrom, List.forall_mem_cons, ih]
      refine and_congr_left fun _ => exists_congr fun j => exists_congr fun c => ?_
      dsimp only
      constructor
      · rintro ⟨target, hj, hc, hkind, htarget, hread⟩
        exact ⟨hj, hc, hkind, htarget ▸ .some hread⟩
      · rintro ⟨hj, hc, hkind, h⟩
        generalize c.target? = target at h ⊢
        cases h with
        | some hread => exact ⟨_, hj, hc, hkind, rfl, hread⟩

theorem nextReadFrom_iff {next : Option Block} {target : Option Json} :
    NextReadFrom classify next target ↔ Option.Rel (ReadFrom classify) next target := by
  cases next with
  | none =>
    rw [NextReadFrom]
    exact ⟨fun h => h ▸ .none, fun h => by cases h; rfl⟩
  | some b =>
    rw [NextReadFrom]
    exact ⟨fun ⟨j, hj, h⟩ => hj ▸ .some h, fun h => by cases h with | some h => exact ⟨_, rfl, h⟩⟩

end Block

namespace Workspace

variable {classify : Option Classifier}

/-- Fields that some members were read into. -/
def FieldsDone (done : List (String × Json)) (fields : List Field) : Prop :=
  SameNames Field.name done fields ∧ ∀ f ∈ fields, ∃ j, lastMember? done f.name = some j ∧ readField? f.name j = some f

theorem name_of_readField? {name : String} {j : Json} {f : Field} (h : readField? name j = some f) : f.name = name := by
  cases j with
  | object ms =>
    obtain ⟨id, -, rfl⟩ := Option.map_eq_some_iff.1 h
    rfl
  | _ => cases h; rfl

theorem done_readFields (id kind : String) (members : List (String × Json)) :
    Yields (FieldsDone members) (fun _ => True) (readFields id kind members) := by
  induction members using List.reverseRecOn with
  | nil => exact ⟨rfl, by simp⟩
  | append_singleton done member ih =>
    obtain ⟨name, j⟩ := member
    unfold readFields at ih ⊢
    rw [List.foldlM_append]
    refine ih.bind fun fields h => ?_
    rw [List.foldlM_cons]
    dsimp only
    cases hread : readField? name j with
    | none => trivial
    | some f =>
      obtain rfl := name_of_readField? hread
      refine ⟨h.1.set f j, fun g hg => ?_⟩
      rw [lastMember?_concat]
      rcases Entries.eq_or_ne_of_mem_set Field.name hg with rfl | ⟨hg, hne⟩
      · exact ⟨j, if_pos rfl, hread⟩
      · rw [if_neg hne]
        exact h.2 g hg

/-- Sockets that some members were read into. -/
def SocketsDone (classify : Option Classifier) (kind : String) (done : List (String × Json)) (sockets : List Socket) : Prop :=
  SameNames Socket.name done sockets ∧ ∀ s ∈ sockets, Block.SocketReadFrom classify kind done s

theorem SocketsDone.set {kind : String} {done : List (String × Json)} {sockets : List Socket}
    (h : SocketsDone classify kind done sockets) {name : String} {j : Json} {c : Connection}
    (hc : Connection.reader {} j = some c) {plugged : Option Block}
    (hplugged : Option.Rel (Block.ReadFrom classify) plugged c.target?) :
    SocketsDone classify kind (done ++ [(name, j)])
      (Block.setSocket sockets ⟨name, socketKind classify kind name, plugged⟩) := by
  refine ⟨h.1.set ⟨name, socketKind classify kind name, plugged⟩ j, fun s hs => ?_⟩
  rw [Block.SocketReadFrom]
  simp only [lastMember?_concat]
  rcases Entries.eq_or_ne_of_mem_set Socket.name hs with rfl | ⟨hs, hne⟩
  · exact ⟨j, c, if_pos rfl, hc, rfl, hplugged⟩
  · simp only [if_neg hne]
    exact h.2 s hs

theorem rel_map_some {x : Except BlockDecodeError Block} {j : Json}
    (h : Yields (fun b => b.ReadFrom classify j) (fun _ => True) x) :
    Yields (fun next => Option.Rel (Block.ReadFrom classify) next (some j)) (fun _ => True) (x.map some) :=
  h.map fun _ hb => .some hb

mutual

theorem readFrom_readBlock (fuel : Nat) (link : Link) (j : Json) :
    Yields (fun b => b.ReadFrom classify j) (fun _ => True) (readBlock classify fuel link j) := by
  cases fuel with
  | zero => rw [readBlock]; trivial
  | succ fuel =>
    rw [readBlock]
    cases hm : BlockMembers.read? j with
    | none => trivial
    | some m =>
      dsimp only
      split
      · trivial
      · next hkind =>
        refine .bind .anyway fun extra _ => .bind (.reworded _ .itself) fun fieldMembers hfieldMembers => ?_
        refine .bind (done_readFields m.id m.kind fieldMembers) fun fields hfields => ?_
        refine .bind (.reworded _ .itself) fun inputMembers hinputMembers => ?_
        have hsockets := done_readSockets fuel m.id m.kind inputMembers [] [] ⟨rfl, by simp⟩
        refine .bind hsockets fun sockets hsockets => ?_
        have hblock : ∀ head next, head.kind = m.kind → head.fields = fields →
            Option.Rel (Block.ReadFrom classify) next (m.next.bind (·.target?)) →
            Block.ReadFrom classify ⟨head, sockets, next⟩ j := by
          intro head next hsame hheadFields hnext
          rw [Block.ReadFrom, hheadFields]
          exact ⟨m, fieldMembers, inputMembers, hm, hkind, hsame, hfieldMembers, hfields.1, hfields.2, hinputMembers,
            hsockets.1, (Block.socketsReadFrom_iff classify).2 hsockets.2, (Block.nextReadFrom_iff classify).2 hnext⟩
        cases htarget : m.next.bind (·.target?) with
        | none => exact .pure (hblock _ _ rfl rfl (htarget ▸ .none))
        | some target =>
          exact .bind (rel_map_some (readFrom_readBlock fuel .next target)) fun next hnext =>
            .pure (hblock _ _ rfl rfl (htarget ▸ hnext))

theorem done_readSockets (fuel : Nat) (id kind : String) (members done : List (String × Json)) (sockets : List Socket)
    (h : SocketsDone classify kind done sockets) :
    Yields (SocketsDone classify kind (done ++ members)) (fun _ => True)
      (readSockets classify fuel id kind sockets members) := by
  cases fuel with
  | zero => rw [readSockets]; trivial
  | succ fuel =>
    cases members with
    | nil =>
      rw [readSockets, List.append_nil]
      exact h
    | cons member rest =>
      obtain ⟨name, j⟩ := member
      rw [readSockets, List.append_cons]
      cases hc : Connection.reader {} j with
      | none => trivial
      | some c =>
        dsimp only
        cases htarget : c.target? with
        | none => exact done_readSockets fuel id kind rest _ _ (h.set hc (htarget ▸ .none))
        | some target =>
          exact .bind (rel_map_some (readFrom_readBlock fuel _ target)) fun plugged hplugged =>
            done_readSockets fuel id kind rest _ _ (h.set hc (htarget ▸ hplugged))

end

theorem readFrom_readTop (fuel i : Nat) (top : List Json) :
    Yields (fun bs => List.Forall₂ (Block.ReadFrom classify) bs top) (fun _ => True) (readTop classify fuel i top) := by
  induction top generalizing i with
  | nil => rw [readTop]; exact .nil
  | cons j rest ih =>
    rw [readTop]
    exact .bind (.reworded _ (readFrom_readBlock fuel .top j)) fun b hb => (ih (i + 1)).bind fun bs hbs =>
      .pure (.cons hb hbs)

end Workspace
end Blockwright
