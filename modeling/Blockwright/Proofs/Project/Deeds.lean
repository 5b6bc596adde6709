import Blockwright.Project.Edit
import Blockwright.Project.Run
import Blockwright.Proofs.Attempts
import Mathlib.Data.List.Nodup
/-!
# What users do to the tables

Every call that is made for a user comes down to one of a few deeds: a project of its own is added
under a free id, some of its rows are changed in place, or a generation of one of its projects is
recorded. A deed leaves the rows of all other users and their generations as they are, and no row
gets another owner.
-/

namespace Blockwright

/-- What a row keeps for good: its id and its owner. -/
def ProjectRow.title (r : ProjectRow) : ProjectId × String := (r.project.id, r.project.owner)

theorem ProjectRow.isOf_iff {r : ProjectRow} {id : ProjectId} {owner : String} :
    r.isOf id owner = true ↔ r.deleted = false ∧ r.project.id = id ∧ r.project.owner = owner := by
  simp [isOf, isAt, and_assoc]

namespace Store

/-- The ids and owners of the rows, in the order of the table. -/
def titles (s : Store) : List (ProjectId × String) := s.projects.map (·.title)

/-- No two rows have one id. -/
def DistinctIds (s : Store) : Prop := (s.titles.map Prod.fst).Nodup

/-- A user has a project that has not been deleted. -/
def Holds (s : Store) (user : String) (p : Project) : Prop :=
  p.owner = user ∧ ∃ r ∈ s.projects, r.deleted = false ∧ r.project = p

/-- A user has a project of an id that has not been deleted. -/
def Owns (s : Store) (user : String) (id : ProjectId) : Prop := ∃ p, s.Holds user p ∧ p.id = id

/-- The rows of one id belong to one user. -/
theorem Owns.owner_eq {s : Store} {user : String} {id : ProjectId} (h : s.Owns user id) (hids : s.DistinctIds)
    {r : ProjectRow} (hr : r ∈ s.projects) (hid : r.project.id = id) : r.project.owner = user := by
  obtain ⟨p, ⟨howner, held, hheld, -, hp⟩, hpid⟩ := h
  have hsameId : r.title.1 = held.title.1 := by simp only [ProjectRow.title, hid, hp, hpid]
  have hsame : r.title = held.title :=
    List.inj_on_of_nodup_map hids (List.mem_map_of_mem hr) (List.mem_map_of_mem hheld) hsameId
  calc r.project.owner = held.project.owner := congrArg Prod.snd hsame
    _ = user := by rw [hp, howner]

/-- No row has an id. -/
def Free (s : Store) (id : ProjectId) : Prop := ∀ r ∈ s.projects, r.project.id ≠ id

theorem free_iff {s : Store} {id : ProjectId} : s.Free id ↔ ¬ s.projects.any (·.project.id = id) = true := by
  simp [Free]

/-! ## Deeds -/

/-- What a user can do to the tables. -/
inductive Deed (user : String) (s : Store) : Store → Prop
  | nothing : Deed user s s
  | add {p : Project} (free : s.Free p.id) (own : p.owner = user) :
    Deed user s (s.write fun now rows => rows ++ [{ project := p, updated := now }])
  | change {f : Nat → ProjectRow → ProjectRow} (kept : ∀ now, ∀ r ∈ s.projects, (f now r).title = r.title)
    (others : ∀ now, ∀ r ∈ s.projects, r.project.owner ≠ user → f now r = r) :
    Deed user s (s.write fun now rows => rows.map (f now))
  | record {g : Generation} (own : s.Owns user g.project) :
    Deed user s { s with generations := s.generations ++ [g] }

/-- What a deed of a user leaves alone. -/
structure Isolated (user : String) (s s' : Store) : Prop where
  /-- The rows of other users are the same. -/
  rows : s'.projects.filter (·.project.owner ≠ user) = s.projects.filter (·.project.owner ≠ user)
  /-- No row gets another id or another owner. -/
  titles : s.titles <+: s'.titles
  /-- The projects of other users have the same generations. -/
  generations : ∀ r ∈ s'.projects, r.project.owner ≠ user →
    s'.generations.filter (·.project = r.project.id) = s.generations.filter (·.project = r.project.id)

/-- A user has the same rows and generations as before. -/
structure Spared (user : String) (s s' : Store) : Prop where
  rows : s'.projects.filter (·.project.owner = user) = s.projects.filter (·.project.owner = user)
  generations : ∀ r ∈ s.projects, r.project.owner = user →
    s'.generations.filter (·.project = r.project.id) = s.generations.filter (·.project = r.project.id)
  distinctIds : s'.DistinctIds

/-- What happens to the tables in any case. -/
structure Later (s s' : Store) : Prop where
  /-- No row gets another id or another owner. -/
  titles : s.titles <+: s'.titles
  distinctIds : s'.DistinctIds

/-- The same titles are distinct again. -/
theorem Later.of_titles {s s' : Store} (h : s'.titles = s.titles) (hids : s.DistinctIds) : Later s s' :=
  ⟨h.symm ▸ List.prefix_rfl, by rwa [DistinctIds, h]⟩

theorem Later.refl {s : Store} (hids : s.DistinctIds) : Later s s := .of_titles rfl hids

theorem Later.trans {s s' s'' : Store} (h : Later s s') (h' : Later s' s'') : Later s s'' :=
  ⟨h.titles.trans h'.titles, h'.distinctIds⟩

/-- Rows that are changed in place keep their titles. -/
theorem titles_change {s : Store} {f : Nat → ProjectRow → ProjectRow}
    (h : ∀ now, ∀ r ∈ s.projects, (f now r).title = r.title) :
    (s.write fun now rows => rows.map (f now)).titles = s.titles := by
  show (s.projects.map (f (s.clock + 1))).map (·.title) = s.projects.map (·.title)
  rw [List.map_map]
  exact List.map_congr_left (h _)

theorem titles_add (s : Store) (p : Project) :
    (s.write fun now rows => rows ++ [{ project := p, updated := now }]).titles = s.titles ++ [(p.id, p.owner)] :=
  List.map_append

/-- While the rows of one user change in place, the rows of all others stay where they are. -/
theorem filter_others_change {user : String} {f : ProjectRow → ProjectRow} {rows : List ProjectRow}
    (hkept : ∀ r ∈ rows, (f r).title = r.title) (hothers : ∀ r ∈ rows, r.project.owner ≠ user → f r = r) :
    (rows.map f).filter (·.project.owner ≠ user) = rows.filter (·.project.owner ≠ user) := by
  induction rows with
  | nil => rfl
  | cons r rest ih =>
    have hrest := ih (fun r' hr' => hkept r' (List.mem_cons_of_mem r hr'))
      fun r' hr' => hothers r' (List.mem_cons_of_mem r hr')
    rw [List.map_cons, List.filter_cons, List.filter_cons, hrest]
    have howner : (f r).project.owner = r.project.owner := congrArg Prod.snd (hkept r List.mem_cons_self)
    by_cases hown : r.project.owner = user
    · simp [howner, hown]
    · rw [hothers r List.mem_cons_self hown]

namespace Deed

variable {user : String} {s s' : Store}

/-- A deed adds a title at most, and only a free one. -/
theorem later (h : Deed user s s') (hids : s.DistinctIds) : Later s s' := by
  cases h with
  | nothing => exact .refl hids
  | @add p free own =>
    have htitles := titles_add s p
    refine ⟨htitles.symm ▸ List.prefix_append _ _, ?_⟩
    rw [DistinctIds, htitles, List.map_append, List.nodup_append]
    refine ⟨hids, List.nodup_singleton _, fun id hid id' hid' heq => ?_⟩
    obtain ⟨title, htitle, rfl⟩ := List.mem_map.1 hid
    obtain ⟨r, hr, rfl⟩ := List.mem_map.1 htitle
    exact free r hr (heq.trans (List.mem_singleton.1 hid'))
  | change kept others => exact .of_titles (titles_change kept) hids
  | record own => exact .of_titles rfl hids

/-- A deed leaves the projects of all other users alone. -/
theorem isolated (h : Deed user s s') (hids : s.DistinctIds) : Isolated user s s' where
  rows := by
    cases h with
    | nothing => rfl
    | @add p free own =>
      show (s.projects ++ [_]).filter _ = _
      simp [List.filter_append, own]
    | change kept others => exact filter_others_change (kept _) (others _)
    | record own => rfl
  titles := (h.later hids).titles
  generations r hr hother := by
    cases h with
    | nothing => rfl
    | add free own => rfl
    | change kept others => rfl
    | @record g own =>
      -- The new generation is of another project: the rows of one id have one owner.
      have hne : ¬ g.project = r.project.id := fun heq => hother (own.owner_eq hids hr heq.symm)
      show (s.generations ++ [g]).filter _ = _
      simp [List.filter_append, hne]

end Deed

/-! ## Runs of deeds -/

theorem Spared.refl {user : String} {s : Store} (hids : s.DistinctIds) : Spared user s s :=
  ⟨rfl, fun _ _ _ => rfl, hids⟩

/-- A row of a user is still there when the rows of the user are the same. -/
theorem mem_of_filter_eq {user : String} {rows rows' : List ProjectRow}
    (h : rows'.filter (·.project.owner = user) = rows.filter (·.project.owner = user)) {r : ProjectRow}
    (hr : r ∈ rows) (hown : r.project.owner = user) : r ∈ rows' := by
  have hmem : r ∈ rows.filter (·.project.owner = user) := List.mem_filter.2 ⟨hr, by simpa using hown⟩
  rw [← h] at hmem
  exact List.mem_of_mem_filter hmem

theorem Spared.trans {user : String} {s s' s'' : Store} (h : Spared user s s') (h' : Spared user s' s'') :
    Spared user s s'' where
  rows := h'.rows.trans h.rows
  generations r hr hown := by
    rw [h'.generations r (mem_of_filter_eq h.rows hr hown) hown, h.generations r hr hown]
  distinctIds := h'.distinctIds

/-- A deed of one user spares every other. -/
theorem Deed.spared {actor user : String} {s s' : Store} (h : Deed actor s s') (hne : actor ≠ user)
    (hids : s.DistinctIds) : Spared user s s' := by
  have hisolated := h.isolated hids
  have hnarrow : ∀ rows : List ProjectRow, rows.filter (·.project.owner = user)
      = (rows.filter (·.project.owner ≠ actor)).filter (·.project.owner = user) := by
    intro rows
    rw [List.filter_filter]
    congr 1
    funext r
    grind
  have hrows : s'.projects.filter (·.project.owner = user) = s.projects.filter (·.project.owner = user) := by
    rw [hnarrow s'.projects, hisolated.rows, ← hnarrow]
  refine ⟨hrows, fun r hr hown => ?_, (h.later hids).distinctIds⟩
  have hother : r.project.owner ≠ actor := fun heq => hne (heq.symm.trans hown)
  exact hisolated.generations r (mem_of_filter_eq hrows hr hown) hother

/-! ## Calls on the tables -/

section Calls

variable {s : Store} {user : String}

theorem yields_find (id : ProjectId) :
    Yields (fun found => ∀ p, found = some p → s.Holds user p ∧ p.id = id) (fun _ => True) (s.find id user) := by
  refine .bind .anyway fun _ _ => .pure fun p hp => ?_
  obtain ⟨r, hr, rfl⟩ := Option.map_eq_some_iff.1 hp
  have hof := List.find?_some hr
  obtain ⟨hlive, hid, howner⟩ := ProjectRow.isOf_iff.1 hof
  exact ⟨⟨howner, r, List.mem_of_find?_eq_some hr, hlive, rfl⟩, hid⟩

theorem yields_get (id : ProjectId) :
    Yields (fun p => s.Holds user p ∧ p.id = id) (fun _ => True) (s.get id user) := by
  have hfind : Yields _ _ (s.find id user) := yields_find id
  unfold get
  split
  case h_1 => trivial
  case h_2 => trivial
  case h_3 p hp => exact hfind.ok hp p rfl

theorem yields_list :
    Yields (fun ps => ∀ p ∈ ps, ∃ q, s.Holds user q ∧ p = { q with document := none }) (fun _ => True)
      (s.list user) := by
  refine .bind .anyway fun _ _ => .pure fun p hp => ?_
  obtain ⟨r, hr, rfl⟩ := List.mem_map.1 hp
  obtain ⟨hrow, hheld⟩ := List.mem_filter.1 (List.mem_mergeSort.1 hr)
  simp only [Bool.and_eq_true, Bool.not_eq_true', decide_eq_true_eq] at hheld
  exact ⟨r.project, ⟨hheld.2, r, hrow, hheld.1, rfl⟩, rfl⟩

theorem yields_create {p : Project} (own : p.owner = user) :
    Yields (fun s' => Deed user s s' ∧ s'.Holds user p) (fun _ => True) (s.create p) := by
  refine .bind .anyway fun _ _ => .reworded _ (.bind .anyway fun _ _ => ?_)
  split
  · trivial
  · next hfree => exact ⟨.add (free_iff.2 hfree) own, own, _, List.mem_append_right _ List.mem_cons_self, rfl, rfl⟩

/-- The row of a project is written anew, and all other rows stay. -/
def putRow (p : Project) (now : Nat) (r : ProjectRow) : ProjectRow :=
  if r.project.id = p.id then { project := p, updated := now } else r

theorem putRow_of_id {p : Project} {now : Nat} {r : ProjectRow} (h : r.project.id = p.id) :
    putRow p now r = { project := p, updated := now } := if_pos h

theorem putRow_of_ne {p : Project} {now : Nat} {r : ProjectRow} (h : r.project.id ≠ p.id) : putRow p now r = r :=
  if_neg h

/-- A project that is there is written in its own place. -/
theorem save_eq {p : Project} (h : ¬ s.Free p.id) :
    s.save p = (do s.checkWrite; return s.write fun now rows => rows.map (putRow p now)) := by
  have hany : s.projects.any (·.project.id = p.id) = true := by
    by_contra hnone
    exact h (free_iff.2 hnone)
  simp only [save, write, if_pos hany]
  rfl

theorem yields_save {p : Project} (hids : s.DistinctIds) (own : s.Owns user p.id) (howner : p.owner = user) :
    Yields (fun s' => Deed user s s' ∧ s'.Holds user p) (fun _ => True) (s.save p) := by
  obtain ⟨held, hheld, hheldId⟩ : ∃ r ∈ s.projects, r.project.id = p.id := by
    obtain ⟨q, ⟨-, r, hr, -, hq⟩, hqid⟩ := own
    exact ⟨r, hr, by rw [hq, hqid]⟩
  rw [save_eq fun hfree => hfree held hheld hheldId]
  refine .bind .anyway fun _ _ => .pure ⟨.change (fun now r hr => ?_) fun now r hr hother => ?_, howner, _,
    List.mem_map_of_mem hheld, ?_, ?_⟩
  · by_cases hid : r.project.id = p.id
    · rw [putRow_of_id hid, ProjectRow.title, ProjectRow.title, own.owner_eq hids hr hid, howner, hid]
    · rw [putRow_of_ne hid]
  · rw [putRow_of_ne fun hid => hother (own.owner_eq hids hr hid)]
  · rw [putRow_of_id hheldId]
  · rw [putRow_of_id hheldId]

theorem yields_update (hids : s.DistinctIds) (id : ProjectId) (c : Patch) :
    Yields (fun u => Deed user s u.2 ∧ u.2.Holds user u.1) (fun _ => True) (s.update id user c) := by
  refine .bind (yields_get id) fun p ⟨hp, _⟩ => .bind .anyway fun _ _ => ?_
  have hsave : Yields _ _ (s.save (c.apply p)) := yields_save hids ⟨p, hp, rfl⟩ hp.1
  exact .bind (hsave.reworded _) fun s' hs' => .pure hs'

theorem yields_remove (id : ProjectId) : Yields (Deed user s) (fun _ => True) (s.remove id user) := by
  have hdelete : Yields (fun s' => ∀ s'', s' = some s'' → Deed user s s'') (fun _ => True) (s.delete id user) := by
    refine .bind .anyway fun _ _ => ?_
    split
    · refine .pure fun s' hs' => ?_
      obtain rfl := Option.some.inj hs'
      refine .change (fun now r hr => ?_) fun now r hr hother => ?_
      · split <;> rfl
      · rw [if_neg fun hof => hother (ProjectRow.isOf_iff.1 hof).2.2]
    · exact .pure fun s' hs' => nomatch hs'
  unfold remove
  split
  case h_1 => trivial
  case h_2 => trivial
  case h_3 s' hs' => exact hdelete.ok hs' s' rfl

theorem yields_record {id : ProjectId} (own : s.Owns user id) (checksum code error : String) :
    Yields (fun u => Deed user s u.2 ∧ u.1 ∈ u.2.generations ∧ u.2.Owns user u.1.project) (fun _ => True)
      (s.record id checksum code error) :=
  .bind .anyway fun _ _ => .bind .anyway fun _ _ =>
    .pure ⟨.record own, List.mem_append_right _ List.mem_cons_self, own⟩

theorem yields_generateProject (v : Service) (cache : Cache) {p : Project} (held : s.Holds user p) :
    Yields (fun u => Deed user s u.2 ∧ u.1.generation ∈ u.2.generations ∧ u.2.Owns user u.1.generation.project)
      (fun _ => True) (v.generateProject cache s p user).1 := by
  have hrecord := yields_record (s := s) ⟨p, held, rfl⟩
  unfold Service.generateProject
  dsimp only
  split
  case h_1 => trivial
  case h_2 g s' hg => exact (hrecord _ _ _).ok hg

theorem yields_history (id : ProjectId) (limit : Int) :
    Yields (fun gs => ∀ g ∈ gs, g ∈ s.generations ∧ g.project = id) (fun _ => True) (s.history id limit) := by
  refine .bind .anyway fun _ _ => .bind .anyway fun _ _ => .pure fun g hg => ?_
  have hmem := List.mem_reverse.1 (List.mem_of_mem_take hg)
  simpa using List.mem_filter.1 hmem

/-- A document is saved for whoever owns the project. -/
theorem yields_saveDocument (hids : s.DistinctIds) (id : ProjectId) (document : Bytes) :
    Yields (Later s) (fun _ => True) (s.saveDocument id document) := by
  refine .bind .anyway fun _ _ => .pure (.of_titles (titles_change fun now r _ => ?_) hids)
  split <;> rfl

end Calls
end Store
end Blockwright
