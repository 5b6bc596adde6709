import Blockwright.Proofs.Project.Deeds
/-!
# Changes of a project that overlap with live edits

A change of a project finds it in the table and later saves it as a whole. In the meantime sessions
save documents of the same project. The whole row that is saved then holds the document that was
found, so a document that a session saved between the two is lost, even when the change is about the
name alone.
-/

namespace Blockwright

/-- A project after documents were saved to it. -/
def Project.saved (p : Project) (documents : List Bytes) : Project :=
  { p with document := documents.getLast?.or p.document }

theorem Project.saved_append (p : Project) (ds ds' : List Bytes) : (p.saved ds).saved ds' = p.saved (ds ++ ds') := by
  simp [saved, List.getLast?_append, Option.or_assoc]

/-- A change sets the document that it carries, if any. -/
theorem Patch.apply_saved (c : Patch) (p : Project) (ds : List Bytes) :
    c.apply (p.saved ds) = { c.apply p with document := (p.saved (ds ++ c.document.toList)).document } := by
  rw [← p.saved_append]
  cases hdocument : c.document <;> simp [apply, Project.saved, hdocument]

namespace Store

/-- Saves documents to a project, one after the other. -/
def saveDocuments (s : Store) (id : ProjectId) (documents : List Bytes) : Except StoreError Store :=
  documents.foldlM (fun s d => s.saveDocument id d) s

/-- A change of a project while sessions save documents to it: some before it is found, some before it
is saved, and some afterwards. -/
def overlap (s : Store) (id : ProjectId) (owner : String) (c : Patch) (before between after : List Bytes) :
    Except ProjectError Store := do
  let s ← (s.saveDocuments id before).mapError .store
  let p ← s.get id owner
  c.check
  let s ← (s.saveDocuments id between).mapError .store
  let s ← (s.save (c.apply p)).mapError .store
  (s.saveDocuments id after).mapError .store

/-- When no session comes between, the project is changed at once. -/
theorem overlap_nil (s : Store) (id : ProjectId) (owner : String) (c : Patch) (before after : List Bytes) :
    s.overlap id owner c before [] after = (do
      let s ← (s.saveDocuments id before).mapError .store
      let (_, s) ← s.update id owner c
      (s.saveDocuments id after).mapError .store) := by
  have hnone : ∀ s' : Store, s'.saveDocuments id [] = .ok s' := fun _ => rfl
  simp only [overlap, update, hnone, mapError_ok, bind_assoc, pure_bind]
  rfl

/-- The document of a row is written, if it is the project of the id. -/
def putDocument (id : ProjectId) (d : Bytes) (now : Nat) (r : ProjectRow) : ProjectRow :=
  if r.isAt id then { r with project := { r.project with document := some d }, updated := now } else r

theorem isOf_putDocument (id : ProjectId) (owner : String) (d : Bytes) (now : Nat) (r : ProjectRow) :
    (putDocument id d now r).isOf id owner = r.isOf id owner := by
  unfold putDocument
  split <;> rfl

/-- A project is found, and the tables can be written. -/
structure Serves (s : Store) (id : ProjectId) (owner : String) (p : Project) : Prop where
  writable : s.checkWrite = .ok ()
  found : s.find id owner = .ok (some p)

namespace Serves

variable {s : Store} {id : ProjectId} {owner : String} {p : Project}

theorem checkRead (h : s.Serves id owner p) : s.checkRead = .ok () := by
  have hwritable := h.writable
  unfold checkWrite at hwritable
  cases hread : s.checkRead with
  | ok u => rfl
  | error e => simp [hread, bind, Except.bind] at hwritable

/-- The project is in a row. -/
theorem row (h : s.Serves id owner p) :
    ∃ r, s.projects.find? (·.isOf id owner) = some r ∧ r.isOf id owner = true ∧ r.project = p := by
  have hfound := h.found
  unfold find at hfound
  rw [h.checkRead] at hfound
  obtain ⟨r, hr, hp⟩ := Option.map_eq_some_iff.1 (Except.ok.inj hfound)
  have hof := List.find?_some hr
  exact ⟨r, hr, hof, hp⟩

/-- What the rows become does not matter to whether they can be written. -/
theorem written (h : s.Serves id owner p) {f : Nat → List ProjectRow → List ProjectRow} {r : ProjectRow} {q : Project}
    (hrow : (f (s.clock + 1) s.projects).find? (·.isOf id owner) = some r) (hq : r.project = q) :
    (s.write f).Serves id owner q := by
  refine ⟨h.writable, ?_⟩
  have hrow : (s.write f).projects.find? (·.isOf id owner) = some r := hrow
  have hread : (s.write f).checkRead = .ok () := h.checkRead
  unfold find
  rw [hread, hrow, ← hq]
  rfl

theorem get (h : s.Serves id owner p) : s.get id owner = .ok p := by
  unfold Store.get
  rw [h.found]

/-- Its document alone is replaced. -/
theorem saveDocument (h : s.Serves id owner p) (d : Bytes) :
    ∃ s', s.saveDocument id d = .ok s' ∧ s'.Serves id owner { p with document := some d } := by
  obtain ⟨r, hr, hof, rfl⟩ := h.row
  have hat : r.isAt id = true := (Bool.and_eq_true_iff.1 hof).1
  unfold Store.saveDocument
  rw [h.writable]
  refine ⟨_, rfl, h.written (r := putDocument id d (s.clock + 1) r) ?_ ?_⟩
  · show (s.projects.map (putDocument id d (s.clock + 1))).find? _ = _
    -- The row that was found stays the first one that is of the id and the owner.
    simp only [List.find?_map, Function.comp_def, isOf_putDocument, hr, Option.map_some]
  · simp only [putDocument, hat, if_true]

theorem saveDocuments (h : s.Serves id owner p) (documents : List Bytes) :
    ∃ s', s.saveDocuments id documents = .ok s' ∧ s'.Serves id owner (p.saved documents) := by
  induction documents generalizing s p with
  | nil => exact ⟨s, rfl, h⟩
  | cons d rest ih =>
    obtain ⟨s₁, hs₁, h₁⟩ := h.saveDocument d
    obtain ⟨s₂, hs₂, h₂⟩ := ih h₁
    refine ⟨s₂, ?_, p.saved_append [d] rest ▸ h₂⟩
    show s.saveDocument id d >>= (fun s => s.saveDocuments id rest) = _
    rw [hs₁]
    exact hs₂

/-- The project that is saved is there, whatever was there under its id. -/
theorem save (h : s.Serves id owner p) {q : Project} (hid : q.id = p.id) (howner : q.owner = p.owner) :
    ∃ s', s.save q = .ok s' ∧ s'.Serves id owner q := by
  obtain ⟨r, hr, hof, rfl⟩ := h.row
  obtain ⟨-, hrid, hrowner⟩ := ProjectRow.isOf_iff.1 hof
  have hmem := List.mem_of_find?_eq_some hr
  have hthere : ¬ s.Free q.id := fun hfree => hfree r hmem hid.symm
  rw [save_eq hthere, h.writable]
  refine ⟨_, rfl, ?_⟩
  -- Every row that is now of the id and the owner is the one that was written.
  have hwritten : ∀ row, (putRow q (s.clock + 1) row).isOf id owner = true →
      putRow q (s.clock + 1) row = { project := q, updated := s.clock + 1 } := by
    intro row hof
    by_cases hrow : row.project.id = q.id
    · exact putRow_of_id hrow
    · rw [putRow_of_ne hrow, ProjectRow.isOf_iff] at hof
      exact absurd (hof.2.1.trans (hrid.symm.trans hid.symm)) hrow
  have hsome : ((s.projects.map (putRow q (s.clock + 1))).find? (·.isOf id owner)).isSome = true := by
    rw [List.find?_isSome]
    refine ⟨_, List.mem_map_of_mem hmem, ?_⟩
    rw [putRow_of_id hid.symm, ProjectRow.isOf_iff]
    exact ⟨rfl, hid.trans hrid, howner.trans hrowner⟩
  obtain ⟨row', hrow'⟩ := Option.isSome_iff_exists.1 hsome
  obtain ⟨row, -, rfl⟩ := List.mem_map.1 (List.mem_of_find?_eq_some hrow')
  have hof' := List.find?_some hrow'
  rw [hwritten row hof'] at hrow'
  exact h.written hrow' rfl

end Serves

/-- Whatever sessions save while a project is changed, the change is made, and the project then has the
last of the documents that were saved before it was found, of its own document, and of those saved after
it was saved. What was saved in between leaves no trace. -/
theorem overlap_keeps_outer {s : Store} {id : ProjectId} {owner : String} {p : Project}
    (h : s.Serves id owner p) {c : Patch} (hc : c.check = .ok ()) (before between after : List Bytes) :
    ∃ s', s.overlap id owner c before between after = .ok s' ∧
      s'.find id owner = .ok (some { c.apply p with
        document := (before ++ c.document.toList ++ after).getLast?.or p.document }) := by
  obtain ⟨s₁, hs₁, h₁⟩ := h.saveDocuments before
  obtain ⟨s₂, hs₂, h₂⟩ := h₁.saveDocuments between
  obtain ⟨s₃, hs₃, h₃⟩ := h₂.save (q := c.apply (p.saved before)) rfl rfl
  obtain ⟨s₄, hs₄, h₄⟩ := h₃.saveDocuments after
  refine ⟨s₄, ?_, ?_⟩
  · unfold overlap
    simp only [hs₁, h₁.get, hc, hs₂, hs₃, hs₄, mapError_ok, bind, Except.bind]
  · have hdocument := congrArg Project.document (p.saved_append (before ++ c.document.toList) after)
    rw [h₄.found, c.apply_saved p before]
    exact congrArg (fun d => Except.ok (some { c.apply p with document := d })) hdocument

/-- A table with one project. -/
def oneProject : Store :=
  { projects := [{ project := { id := ⟨1⟩, name := "p", owner := "a" }, updated := 1 }], clock := 1 }

/-- A document that was saved before the project was renamed is still there. -/
theorem rename_keeps_earlier :
    ∃ s', oneProject.overlap ⟨1⟩ "a" { name := some "q" } [[123, 125]] [] [] = .ok s' ∧
      s'.find ⟨1⟩ "a" = .ok (some { id := ⟨1⟩, name := "q", owner := "a", document := some [123, 125] }) :=
  overlap_keeps_outer (c := { name := some "q" }) (p := { id := ⟨1⟩, name := "p", owner := "a" }) ⟨rfl, rfl⟩ rfl
    [[123, 125]] [] []

/-- A document that a session saves between is lost, though the change is about the name alone. -/
theorem rename_loses_document :
    ∃ s', oneProject.overlap ⟨1⟩ "a" { name := some "q" } [] [[123, 125]] [] = .ok s' ∧
      s'.find ⟨1⟩ "a" = .ok (some { id := ⟨1⟩, name := "q", owner := "a", document := none }) :=
  ⟨_, rfl, rfl⟩

end Store
end Blockwright
