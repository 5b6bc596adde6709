import Blockwright.Proofs.Http.Ownership
import Blockwright.Proofs.Json.Slices
import Blockwright.Proofs.Project.Overlap
/-!
# A patch changes what it carries

A patch to a project is refused and changes nothing, or it rewrites the row of that project and leaves
every other row as it was. In that row a text is changed only where the body gives one: a member that is
absent or null keeps it. The document is changed wherever the body has that member, and `null` is a
document like any other.
-/

namespace Blockwright.Http

open Json (Reader)

variable {body : Bytes} {ms : List (String × Json)} {name : String}

/-! ## What a body says -/

/-- What a body says about a member: the value that is written last, if there is any. -/
def said (body : Bytes) (name : String) : Option Json :=
  (Json.parseFront? body).bind fun (j, _) => Json.lastValue? j.members name

/-- What is said about a text: it is absent, null, or given. -/
inductive Says : Option Json → Option String → Prop
  | absent : Says none none
  | null : Says (some .null) none
  | text (s : String) : Says (some (.str s)) (some s)

/-- The last value of a name decides an optional text; the earlier ones only have to be readable. -/
theorem says_of_field {v : Option String} (h : Reader.field ms name (.optional "" .string) none = some v) :
    Says (Json.lastValue? ms name) v := by
  rw [Reader.field] at h
  rw [Json.lastValue?]
  obtain hnil | ⟨front, last, hlast⟩ := List.eq_nil_or_concat (Json.valuesOf ms name)
  · rw [hnil] at h ⊢
    rw [← Option.some.inj h]
    exact .absent
  · rw [hlast, List.concat_eq_append, List.foldlM_append] at h
    obtain ⟨old, -, hread⟩ := Option.bind_eq_some_iff.1 h
    rw [hlast, List.concat_eq_append, List.getLast?_concat]
    obtain ⟨read, hlast, hv⟩ := Option.bind_eq_some_iff.1 hread
    obtain rfl := Option.some.inj hv
    cases last with
    | null => exact Option.some.inj hlast ▸ .null
    | str s => exact Option.some.inj hlast ▸ .text s
    | _ => cases hlast

/-- A patch is what its body says: texts where they are given, and a part of the body as the document. -/
structure Carries (body : Bytes) (c : Patch) : Prop where
  name : Says (said body "name") c.name
  description : Says (said body "description") c.description
  document : said body "workspace" = none ∧ c.document = none ∨
    ∃ j w, said body "workspace" = some j ∧ c.document = some w ∧ Json.parse? w = some j ∧ w <:+: body

theorem PatchForm.carries_of_read {c : Patch} (h : PatchForm.read body = .ok c) : Carries body c := by
  rw [PatchForm.read, readForm] at h
  split at h
  · cases h
  · rename_i form hform
    split at h
    · obtain rfl := Except.ok.inj h
      obtain ⟨⟨j, rest⟩, hparse, hread⟩ := Option.bind_eq_some_iff.1 hform
      have hsaid : ∀ name, said body name = Json.lastValue? j.members name := fun name => by rw [said, hparse]; rfl
      rw [PatchForm.reader] at hread
      cases j with
      | null =>
        obtain rfl := Option.some.inj hread
        have habsent : ∀ name, said body name = none := fun name => hsaid name
        exact ⟨habsent "name" ▸ .absent, habsent "description" ▸ .absent, .inl ⟨habsent _, rfl⟩⟩
      | object ms =>
        simp only [Reader.record, Option.bind_eq_bind, Option.bind_eq_some_iff] at hread
        obtain ⟨name, hname, description, hdescription, heq⟩ := hread
        obtain rfl := Option.some.inj heq
        refine ⟨hsaid "name" ▸ says_of_field hname, hsaid "description" ▸ says_of_field hdescription, ?_⟩
        rw [hsaid]
        rcases Json.slice?_of_object hparse "workspace" with ⟨hnone, hslice⟩ | ⟨j, w, hj, hslice, hw⟩
        · exact .inl ⟨hnone, hslice⟩
        · exact .inr ⟨j, w, hj, hslice, hw⟩
      | _ => cases hread
    · cases h

/-! ## What a patch does -/

/-- A project before and after a patch. A text is kept where the body leaves it out or says null, and is otherwise the
one given. The document is kept where the body leaves it out; otherwise it is the part of the body that the value was
read from, and null is no exception. -/
structure Patched (body : Bytes) (p q : Project) : Prop where
  id : q.id = p.id
  owner : q.owner = p.owner
  name : (said body "name" = none ∨ said body "name" = some .null) ∧ q.name = p.name ∨ said body "name" = some (.str q.name)
  description : (said body "description" = none ∨ said body "description" = some .null) ∧ q.description = p.description ∨
    said body "description" = some (.str q.description)
  document : said body "workspace" = none ∧ q.document = p.document ∨
    ∃ j w, said body "workspace" = some j ∧ q.document = some w ∧ Json.parse? w = some j ∧ w <:+: body

theorem Says.applied {j : Option Json} {given : Option String} (h : Says j given) (old : String) :
    (j = none ∨ j = some .null) ∧ given.getD old = old ∨ j = some (.str (given.getD old)) := by
  cases h with
  | absent => exact .inl ⟨.inl rfl, rfl⟩
  | null => exact .inl ⟨.inr rfl, rfl⟩
  | text s => exact .inr rfl

theorem Carries.patched {c : Patch} (h : Carries body c) (p : Project) : Patched body p (c.apply p) where
  id := rfl
  owner := rfl
  name := h.name.applied p.name
  description := h.description.applied p.description
  document := by
    unfold Patch.apply
    rcases h.document with ⟨hsaid, hnone⟩ | ⟨j, w, hsaid, hw, hread⟩
    · rw [hnone]
      exact .inl ⟨hsaid, rfl⟩
    · rw [hw]
      exact .inr ⟨j, w, hsaid, rfl, hread⟩

/-- A request to patch a project of the caller is in order: its path spells the project, its body is a patch whose
document can be read, and the tables can be written. -/
structure InOrder (s : Store) (user : String) (id : RawText) (body : Bytes) (pid : ProjectId) (p : Project) (c : Patch) :
    Prop where
  spelled : ProjectId.parse id = .ok pid
  serves : s.Serves pid user p
  read : PatchForm.read body = .ok c
  readable : c.check = .ok ()

/-- The tables with a project in place of another one. -/
def replaced (s : Store) (p q : Project) : Store :=
  s.write fun now rows => rows.map fun row => if row.project = p then { project := q, updated := now } else row

theorem save_eq_replaced {s : Store} (hids : s.DistinctIds) {pid : ProjectId} {user : String} {p q : Project}
    (h : s.Serves pid user p) (hid : q.id = p.id) : s.save q = .ok (replaced s p q) := by
  obtain ⟨row, hrow, -, rfl⟩ := h.row
  have hmem := List.mem_of_find?_eq_some hrow
  have hwritten : s.projects.map (Store.putRow q (s.clock + 1)) = s.projects.map fun other =>
      if other.project = row.project then { project := q, updated := s.clock + 1 } else other := by
    refine List.map_congr_left fun other hother => ?_
    by_cases hsame : other = row
    · rw [hsame, if_pos rfl]
      exact Store.putRow_of_id hid.symm
    · have hother' : other.project.id ≠ row.project.id := fun hsameId => by
        rw [Store.DistinctIds, Store.titles, List.map_map] at hids
        exact hsame (List.inj_on_of_nodup_map hids hother hmem hsameId)
      rw [if_neg fun hproject => hother' (congrArg Project.id hproject)]
      exact Store.putRow_of_ne (hid ▸ hother')
  rw [Store.save_eq fun hfree => hfree row hmem hid.symm, h.writable]
  exact congrArg (fun rows => Except.ok { s with projects := rows, clock := s.clock + 1 }) hwritten

section Requests

variable {t : Site} {fresh : ProjectId} {s : Sessions} {c : Caller} {r : Request} {id : RawText}

theorem handle_eq (hroute : Route.of? r.method r.path = some (.updateProject id)) (hjudge : t.gate.judge r = .ok c) :
    t.handle fresh s r = match t.serve fresh s c r (.updateProject id) with
      | .ok served => served
      | .error response => { response, sessions := s } := by
  cases hserved : t.serve fresh s c r (.updateProject id) <;> simp only [Site.handle, hroute, hjudge, hserved]

/-- A patch that is in order is made, and the project is answered. -/
theorem handle_of_inOrder (hids : s.store.DistinctIds) (hroute : Route.of? r.method r.path = some (.updateProject id))
    (hjudge : t.gate.judge r = .ok c) {pid : ProjectId} {p : Project} {change : Patch}
    (h : InOrder s.store c.user id r.body pid p change) :
    t.handle fresh s r = { response := .found (projectJson (change.apply p)),
                           sessions := { s with store := replaced s.store p (change.apply p) } } := by
  have hspelled : idOf id = .ok pid := by rw [idOf, h.spelled]; rfl
  have hupdate : s.store.update pid c.user change = .ok (change.apply p, replaced s.store p (change.apply p)) := by
    rw [Store.update, h.serves.get, h.readable]
    simp only [save_eq_replaced hids h.serves (q := change.apply p) rfl, bind, Except.bind, mapError_ok, pure, Except.pure]
  rw [handle_eq hroute hjudge]
  simp only [Site.serve, hspelled, h.read, hupdate, mapError_ok, bind, Except.bind, pure, Except.pure]

/-- A patch that is made was in order. -/
theorem exists_inOrder {served : Served} (h : t.serve fresh s c r (.updateProject id) = .ok served) :
    ∃ pid p change, InOrder s.store c.user id r.body pid p change := by
  obtain ⟨pid, hpid, h⟩ := bind_eq_ok_iff.1 h
  obtain ⟨change, hchange, h⟩ := bind_eq_ok_iff.1 h
  obtain ⟨⟨q, store⟩, hupdate, -⟩ := bind_eq_ok_iff.1 h
  have hspelled : ProjectId.parse id = .ok pid := mapError_eq_ok_iff.1 hpid
  obtain ⟨p, hget, h⟩ := bind_eq_ok_iff.1 (mapError_eq_ok_iff.1 hupdate)
  obtain ⟨_, hcheck, h⟩ := bind_eq_ok_iff.1 h
  obtain ⟨store', hsave, -⟩ := bind_eq_ok_iff.1 h
  obtain ⟨_, hwritable, -⟩ := bind_eq_ok_iff.1 (mapError_eq_ok_iff.1 hsave)
  have hfound : s.store.find pid c.user = .ok (some p) := by
    rw [Store.get] at hget
    split at hget
    · cases hget
    · cases hget
    · rename_i found hfound
      rw [hfound, Except.ok.inj hget]
  exact ⟨pid, p, change, hspelled, ⟨hwritable, hfound⟩, mapError_eq_ok_iff.1 hchange, hcheck⟩

/-- A request to patch a project. If it is in order, the caller's project is rewritten as the body says, is found so
from then on, and is answered; the rows of all other projects, the generations, the cache and the live sessions stay.
Otherwise it is refused and nothing changes. -/
theorem patch_changes_what_it_carries (hs : Reached s.store)
    (hroute : Route.of? r.method r.path = some (.updateProject id)) (hjudge : t.gate.judge r = .ok c) (fresh : ProjectId) :
    (∀ pid p change, InOrder s.store c.user id r.body pid p change → ∃ q, Patched r.body p q ∧
      t.handle fresh s r =
        { response := .found (projectJson q), sessions := { s with store := replaced s.store p q } } ∧
      (replaced s.store p q).find pid c.user = .ok (some q)) ∧
    ((¬∃ pid p change, InOrder s.store c.user id r.body pid p change) →
      (t.handle fresh s r).response.IsRefusal ∧ (t.handle fresh s r).sessions = s) := by
  constructor
  · intro pid p change h
    refine ⟨change.apply p, (PatchForm.carries_of_read h.read).patched p, handle_of_inOrder hs.distinctIds hroute hjudge h, ?_⟩
    obtain ⟨store, hsave, hserves⟩ := h.serves.save (q := change.apply p) rfl rfl
    rw [save_eq_replaced hs.distinctIds h.serves (q := change.apply p) rfl] at hsave
    rw [Except.ok.inj hsave]
    exact hserves.found
  · intro hnot
    have hproject : (Route.updateProject id).isOfProjects = true := rfl
    have hserve := yields_serve_projects t fresh hs.distinctIds c r hproject
    rw [handle_eq hroute hjudge]
    cases hserved : t.serve fresh s c r (.updateProject id) with
    | ok served => exact absurd (exists_inOrder hserved) hnot
    | error response =>
      rw [hserved] at hserve
      exact ⟨hserve, rfl⟩

end Requests

/-! ## Two patches -/

/-- The developer creates a project with a document. -/
def drawing : Request := { creation with body := Text.bytesOf "\x7b\"name\":\"x\",\"workspace\":\x7b\x7d\x7d" }

/-- The tables that hold that project. -/
def drawnTables : Store := (openSite.handle ⟨1⟩ { store := {} } drawing).sessions.store

/-- The project in them. -/
def drawnProject : Project := { id := ⟨1⟩, name := "x", owner := developer, document := some [0x7B, 0x7D] }

/-- The developer asks to change it. -/
def patching (body : String) : Request := { deletion with method := "PUT", body := Text.bytesOf body }

/-- A patch with a new name and without a description keeps the document. -/
theorem renaming_keeps_document :
    ∃ q, Patched (patching "\x7b\"name\":\"y\",\"description\":null\x7d").body drawnProject q ∧
      openSite.handle ⟨2⟩ { store := drawnTables } (patching "\x7b\"name\":\"y\",\"description\":null\x7d") =
        { response := .found (projectJson q), sessions := { store := replaced drawnTables drawnProject q } } ∧
      (replaced drawnTables drawnProject q).find ⟨1⟩ developer = .ok (some q) := by
  have hreached : Reached drawnTables := ⟨{}, .single (.request openSite {} .off ⟨1⟩ drawing)⟩
  have hroute : Route.of? "PUT" deletion.path = some (.updateProject (.ofString "00000000-0000-0000-0000-000000000001")) := by
    decide +kernel
  have hjudge : openSite.gate.judge (patching "\x7b\"name\":\"y\",\"description\":null\x7d") =
      .ok { user := developer, username := developer } := by
    decide +kernel
  have hpatches := (patch_changes_what_it_carries (s := { store := drawnTables }) hreached hroute hjudge ⟨2⟩).1
  refine hpatches ⟨1⟩ drawnProject { name := some "y" } ⟨by decide +kernel, ⟨by decide +kernel, by decide +kernel⟩, ?_, rfl⟩
  decide +kernel

theorem eq_null {j : Option Json} (h : (match j with | some .null => true | _ => false) = true) : j = some .null := by
  split at h
  · rfl
  · cases h

/-- A patch whose document is null replaces the document. -/
theorem null_replaces_document :
    said (patching "\x7b\"workspace\":null\x7d").body "workspace" = some .null ∧
      drawnTables.find ⟨1⟩ developer = .ok (some drawnProject) ∧
      (openSite.handle ⟨2⟩ { store := drawnTables } (patching "\x7b\"workspace\":null\x7d")).sessions.store.find ⟨1⟩ developer =
        .ok (some { drawnProject with document := some (Text.bytesOf "null") }) ∧
      drawnProject.document ≠ some (Text.bytesOf "null") :=
  ⟨eq_null (by decide +kernel), by decide +kernel, by decide +kernel, by decide +kernel⟩

end Blockwright.Http
