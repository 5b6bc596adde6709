import Blockwright.Proofs.Containment.Program
import Blockwright.Proofs.Service.Visits
/-!
# The cache is transparent

A service answers a run of requests from one cache, which may fail at any time, lose what it holds
and be used by others for keys of their own. Each answer is the one that the service gives without
a cache. What carries this is that code is in the cache only because a request of the run made it
and the cache took it.
-/

namespace Blockwright

/-! ## Runs -/

namespace Service

variable (v : Service)

/-- Runs of a service: the requests so far, and the cache behind them. -/
inductive Serves (start : Cache) : List Visit → Cache → Prop where
  | start : Serves start [] start
  | drift {visits : List Visit} {c c' : Cache} : Serves start visits c → c.DriftsTo c' → Serves start visits c'
  | visit {visits : List Visit} {c : Cache} (document : Bytes) (oneBased : Option Bool) : Serves start visits c →
    Serves start (visits ++ [⟨document, oneBased, c⟩]) (v.generate c document oneBased).2

variable {v} {start : Cache}

theorem Serves.shares {visits : List Visit} {c : Cache} (h : v.Serves start visits c) :
    Shares start (visits.map (Turn.mk v)) c := by
  induction h with
  | start => exact .start
  | drift _ hdrift ih => exact ih.drift hdrift
  | visit document oneBased _ ih =>
    rw [List.map_append]
    exact ih.turn v document oneBased

/-! ## What is in the cache -/

/-- Code is in the cache only for a request that made it and stored it. -/
def Backed (v : Service) (visits : List Visit) (c : Cache) : Prop :=
  ∀ key code, isCodeKey key = true → c.held? key = some code →
    ∃ e ∈ visits, e.key v = key ∧ e.Stored v ∧ (e.plainOutcome v).code = .ok code

theorem backed_of_holdsLast {visits : List Visit} {c : Cache} (h : c.HoldsLast (visits.map (Turn.mk v))) :
    Backed v visits c := by
  intro key code hkey hheld
  obtain ⟨before, t, after, hsplit, htkey, hstored, hcode, -⟩ := h key code hkey hheld
  have ht : t ∈ visits.map (Turn.mk v) := hsplit ▸ List.mem_append_right _ List.mem_cons_self
  obtain ⟨e, he, rfl⟩ := List.mem_map.1 ht
  exact ⟨e, he, htkey, hstored, hcode⟩

theorem backed_of_serves {visits : List Visit} {c : Cache} (hrun : v.Serves start visits c)
    (hfresh : ∀ key, isCodeKey key = true → start.held? key = none) : Backed v visits c :=
  backed_of_holdsLast (hrun.shares.holdsLast hfresh)

/-- What was in the cache that a request met. -/
theorem backed_before {visits earlier later : List Visit} {e : Visit} {c : Cache} (hrun : v.Serves start visits c)
    (hfresh : ∀ key, isCodeKey key = true → start.held? key = none) (hsplit : visits = earlier ++ e :: later) :
    Backed v earlier e.cache := by
  have hturns : visits.map (Turn.mk v) = earlier.map (Turn.mk v) ++ ⟨v, e⟩ :: later.map (Turn.mk v) := by
    rw [hsplit, List.map_append, List.map_cons]
  exact backed_of_holdsLast ((hrun.shares.before hturns).holdsLast hfresh)

/-! ## Answers -/

/-- No two texts that the run digests have one digest. -/
def NoCollision (v : Service) (visits : List Visit) : Prop :=
  ∀ e ∈ visits, ∀ e' ∈ visits, Digest.sha256 (e.digested v) = Digest.sha256 (e'.digested v) →
    e.digested v = e'.digested v

/-- Requests of a run with one key ask for one program. -/
theorem same_request {visits : List Visit} (hcollision : NoCollision v visits) {e e' : Visit} (he : e ∈ visits)
    (he' : e' ∈ visits) (hkey : e.key v = e'.key v) :
    e.document = e'.document ∧ v.indexMode e.oneBased = v.indexMode e'.oneBased :=
  checksumText_injective (hcollision e he e' he' (sha256_eq_of_cacheKey hkey))

theorem code_eq_of_document_eq {e e' : Visit} (hdocument : e.document = e'.document)
    (hbase : v.indexMode e.oneBased = v.indexMode e'.oneBased) :
    (e.plainOutcome v).code = (e'.plainOutcome v).code := by
  rw [Visit.plainOutcome_eq, Visit.plainOutcome_eq, hdocument, hbase]

/-- An answer from the cache is backed by an earlier request for the same program. -/
theorem Backed.of_cached {visits earlier : List Visit} {e : Visit} (hbacked : Backed v earlier e.cache)
    (hcollision : NoCollision v visits) (hearlier : ∀ e' ∈ earlier, e' ∈ visits) (he : e ∈ visits)
    (hcached : (e.outcome v).cached = true) :
    ∃ e' ∈ earlier, e'.document = e.document ∧ v.indexMode e'.oneBased = v.indexMode e.oneBased ∧ e'.Stored v ∧
      (e.outcome v).code = (e.plainOutcome v).code := by
  obtain ⟨code, hheld, hcode⟩ := e.held?_of_cached hcached
  obtain ⟨e', he', hkey, hstored, hplain⟩ := hbacked (e.key v) code (isCodeKey_cacheKey _) hheld
  obtain ⟨hdocument, hbase⟩ := same_request hcollision (hearlier e' he') he hkey
  refine ⟨e', he', hdocument, hbase, hstored, ?_⟩
  rw [hcode, ← code_eq_of_document_eq hdocument hbase, hplain]

/-- The cache is transparent: every answer of a run has the checksum and the code, or the error,
that the service gives without a cache; an answer is from the cache only when an earlier request
for the same document in the same index mode made it and stored it; a request that fails leaves
the cache as it is, and its key is never held. -/
theorem cache_transparent {visits : List Visit} {c : Cache} (hrun : v.Serves start visits c)
    (hfresh : ∀ key, isCodeKey key = true → start.held? key = none) (hcollision : NoCollision v visits) :
    (∀ earlier e later, visits = earlier ++ e :: later →
      (e.outcome v).checksum = (e.plainOutcome v).checksum ∧ (e.outcome v).code = (e.plainOutcome v).code ∧
      ((e.outcome v).cached = true → ∃ e' ∈ earlier, e'.document = e.document ∧
        v.indexMode e'.oneBased = v.indexMode e.oneBased ∧ e'.Stored v) ∧
      (∀ rejection, (e.outcome v).code = .error rejection → e.cacheBehind v = e.cache)) ∧
    ∀ e ∈ visits, ∀ rejection, (e.outcome v).code = .error rejection → c.held? (e.key v) = none := by
  have hanswer : ∀ (earlier : List Visit) (e : Visit) (later : List Visit), visits = earlier ++ e :: later →
      (e.outcome v).code = (e.plainOutcome v).code ∧
      ((e.outcome v).cached = true → ∃ e' ∈ earlier, e'.document = e.document ∧
        v.indexMode e'.oneBased = v.indexMode e.oneBased ∧ e'.Stored v) := by
    intro earlier e later hsplit
    have hbacked := backed_before hrun hfresh hsplit
    have hearlier : ∀ e' ∈ earlier, e' ∈ visits := fun e' he' => hsplit ▸ List.mem_append_left _ he'
    have he : e ∈ visits := hsplit ▸ List.mem_append_right _ List.mem_cons_self
    cases hcached : (e.outcome v).cached with
    | false => exact ⟨e.code_of_not_cached hcached, fun h => Bool.noConfusion h⟩
    | true =>
      obtain ⟨e', he', hdocument, hbase, hstored, hcode⟩ := hbacked.of_cached hcollision hearlier he hcached
      exact ⟨hcode, fun _ => ⟨e', he', hdocument, hbase, hstored⟩⟩
  constructor
  · intro earlier e later hsplit
    obtain ⟨hcode, hhit⟩ := hanswer earlier e later hsplit
    exact ⟨e.checksum_outcome, hcode, hhit, fun rejection => e.cacheBehind_of_error⟩
  · intro e he rejection hfailed
    obtain ⟨earlier, later, hsplit⟩ := List.append_of_mem he
    cases hheld : c.held? (e.key v) with
    | none => rfl
    | some code =>
      -- what is held was made for the same program, and that program fails
      obtain ⟨e', he', hkey, -, hplain⟩ := backed_of_serves hrun hfresh (e.key v) code (isCodeKey_cacheKey _) hheld
      obtain ⟨hdocument, hbase⟩ := same_request hcollision he' he hkey
      rw [(hanswer earlier e later hsplit).1, ← code_eq_of_document_eq hdocument hbase, hplain] at hfailed
      cases hfailed

/-! ## A program that is asked for twice -/

/-- A first request, to a service with an empty cache. -/
def firstVisit (document : Bytes) : Visit := ⟨document, none, .memory [] {}⟩

/-- The same request again. -/
def secondVisit (v : Service) (document : Bytes) : Visit := ⟨document, none, (firstVisit document).cacheBehind v⟩

theorem serves_twice (v : Service) (document : Bytes) :
    v.Serves (.memory [] {}) [firstVisit document, v.secondVisit document] ((v.secondVisit document).cacheBehind v) :=
  .visit document none (.visit document none .start)

theorem noCollision_twice (v : Service) (document : Bytes) :
    NoCollision v [firstVisit document, v.secondVisit document] := by
  have hsame : ∀ e ∈ [firstVisit document, v.secondVisit document],
      e.digested v = checksumText document (v.indexMode none) := by
    intro e he
    rcases List.mem_cons.1 he with rfl | he
    · rfl
    · rw [List.mem_singleton.1 he]
      rfl
  intro e he e' he' _
  rw [hsame e he, hsame e' he']

/-- The first request leaves its program behind. -/
theorem get?_secondVisit {document : Bytes} {code : String}
    (h : v.settings.compile document (v.indexMode none) = .ok code) :
    (v.secondVisit document).cache.get? (cacheKey (checksum document (v.indexMode none))) = some code := by
  have hfirst : (firstVisit document).cacheBehind v =
      .memory [(cacheKey (checksum document (v.indexMode none)), code)] {} := by
    unfold Visit.cacheBehind firstVisit
    rcases v.generate_cases (.memory [] {}) document none with ⟨code', hget, -⟩ | ⟨code', hc, hg⟩ | ⟨r, hc, -⟩
    · cases hget
    · rw [h] at hc
      rw [hg, Except.ok.inj hc]
      rfl
    · rw [h] at hc
      cases hc
  rw [secondVisit, hfirst, Cache.get?, if_neg (by decide), Entries.lookup_cons_eq, if_pos rfl]

/-- A service in the same index mode finds the program. -/
theorem outcome_secondVisit (v' : Service) {document : Bytes} {code : String}
    (h : v.settings.compile document (v.indexMode none) = .ok code) (hbase : v'.indexMode none = v.indexMode none) :
    (v.secondVisit document).outcome v' =
      { checksum := checksum document (v'.indexMode none), cached := true, code := .ok code } := by
  have hget := get?_secondVisit h
  rw [← hbase] at hget
  unfold Visit.outcome generate
  dsimp only [secondVisit] at hget ⊢
  rw [hget]

/-- The document of an empty workspace. -/
def emptyDocument : Bytes := [0x7B, 0x7D]

theorem compile_of_decode {s : GeneratorSettings} {document : Bytes} {oneBased : Bool} {ws : Workspace} {code : String}
    (hdecode : Workspace.decode (some Kind.Registry.standard.classify) document = .ok ws)
    (hgenerate : s.generator.generate { ws with oneBased := ws.oneBased || oneBased } = .ok code) :
    s.compile document oneBased = .ok code := by
  unfold GeneratorSettings.compile
  rw [hdecode]
  show (s.generator.generate { ws with oneBased := ws.oneBased || oneBased }).mapError _ = _
  rw [hgenerate]
  rfl

theorem generate_no_blocks (g : Generator) {ws : Workspace} (htop : ws.top = []) (hkeys : Generator.declaredKeys ws = []) :
    ∃ code, g.generate ws = .ok code := by
  have hrun : ∀ p, (Generator.emitTop g.emitters ws.top).run (g.settings ws) p = (.ok [], p) := by
    rw [htop]
    exact fun _ => rfl
  exact ⟨_, Generator.generate_eq (Generator.start_of_no_keys hkeys) (hrun _)⟩

theorem compile_emptyDocument (s : GeneratorSettings) (oneBased : Bool) :
    ∃ code, s.compile emptyDocument oneBased = .ok code := by
  have hdecode : Workspace.decode (some Kind.Registry.standard.classify) emptyDocument = .ok {} := by rfl
  have hgenerate : ∃ code, s.generator.generate { ({} : Workspace) with oneBased := ({} : Workspace).oneBased || oneBased }
      = .ok code := generate_no_blocks s.generator rfl rfl
  obtain ⟨code, hcode⟩ := hgenerate
  exact ⟨code, compile_of_decode hdecode hcode⟩

/-- A service as it is installed. -/
def usual : Service := {}

/-- Asked for again, the program of an empty workspace comes from the cache, and it is the one
that is made without a cache. -/
theorem emptyDocument_transparent :
    ((usual.secondVisit emptyDocument).outcome usual).cached = true ∧
      ((usual.secondVisit emptyDocument).outcome usual).code =
        ((usual.secondVisit emptyDocument).plainOutcome usual).code ∧
      (firstVisit emptyDocument).Stored usual := by
  have hfresh : ∀ key, isCodeKey key = true → (Cache.memory [] {}).held? key = none := fun _ _ => rfl
  obtain ⟨code, hcode⟩ := compile_emptyDocument usual.settings (usual.indexMode none)
  have hcached : ((usual.secondVisit emptyDocument).outcome usual).cached = true :=
    congrArg Outcome.cached (outcome_secondVisit usual hcode rfl)
  obtain ⟨hanswers, -⟩ :=
    cache_transparent (usual.serves_twice emptyDocument) hfresh (usual.noCollision_twice emptyDocument)
  obtain ⟨-, hplain, hhit, -⟩ := hanswers [firstVisit emptyDocument] _ [] rfl
  obtain ⟨e, he, -, -, hstored⟩ := hhit hcached
  exact ⟨hcached, hplain, List.mem_singleton.1 he ▸ hstored⟩

end Service
end Blockwright
