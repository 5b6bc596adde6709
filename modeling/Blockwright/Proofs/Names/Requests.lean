import Blockwright.Proofs.Names.Identifiers
/-!
# Runs of a registry

A registry is asked for names one request after the other. `served_cases` says once what a
request for a name can do; that no name is handed out twice, that a key keeps its name and that
two keys share none are read off it. After any run the names in use are those handed out since the last
reset, so a request for a fresh name takes the first candidate that is neither reserved nor handed out
before, and only when all are taken it fails.
-/

namespace Blockwright.Names

/-! ## Requests -/

/-- What can be asked of a registry. -/
inductive Request where
  | reserve (words : List String)
  | get (key : RawText) (category : Category)
  | distinct (seed : RawText) (category : Category)
  | setVariables (idNames : List (RawText × String))
  | reset
deriving DecidableEq, Repr

/-- Serves one request: the name handed out, empty when the request asks for none, and the
registry behind it. -/
def serve (n : Names) : Request → String × Names
  | .reserve words => ("", n.reserve words)
  | .get key category => n.get key category
  | .distinct seed category => n.distinct seed category
  | .setVariables idNames => ("", { n with idNames })
  | .reset => ("", n.reset)

/-- The registry behind a run of requests. -/
def after (n : Names) : List Request → Names
  | [] => n
  | r :: rs => (n.serve r).2.after rs

/-- The requests of a run, each with its answer. -/
def trace (n : Names) : List Request → List (Request × String)
  | [] => []
  | r :: rs => (r, (n.serve r).1) :: (n.serve r).2.trace rs

theorem after_append (n : Names) (rs rs' : List Request) : n.after (rs ++ rs') = (n.after rs).after rs' := by
  induction rs generalizing n with
  | nil => rfl
  | cons r rs ih => exact ih _

/-! ## Free names -/

/-- The names that are tried for an identifier, in order: itself, then with 2, 3, … behind it. -/
def candidates (base : String) : List String :=
  base :: (List.range' 2 (maxSuffix - 1)).map fun i => base ++ Text.ofNat i

theorem freeSuffix?_eq (n : Names) (base : String) (tries i : Nat) :
    n.freeSuffix? base tries i =
      ((List.range' i tries).map fun j => base ++ Text.ofNat j).find? (fun name => !n.taken name) := by
  induction tries generalizing i with
  | zero => rfl
  | succ tries ih =>
    rw [List.range'_succ, List.map_cons, List.find?_cons, freeSuffix?]
    cases n.taken (base ++ Text.ofNat i) <;> simp [ih]

/-- The search takes the first candidate that is free. -/
theorem free?_eq (n : Names) (base : String) : n.free? base = (candidates base).find? (fun name => !n.taken name) := by
  rw [free?, candidates, List.find?_cons, freeSuffix?_eq]
  cases n.taken base <;> simp

theorem isLegal_candidate {base name : String} (hb : Identifier.isLegal base = true) (h : name ∈ candidates base) :
    Identifier.isLegal name = true := by
  rcases List.mem_cons.1 h with rfl | h
  · exact hb
  · obtain ⟨i, -, rfl⟩ := List.mem_map.1 h
    exact Identifier.isLegal_numbered i hb

theorem free_of_free? {n : Names} {base name : String} (h : n.free? base = some name) :
    name ∉ n.used ∧ n.isReserved name = false := by
  rw [free?_eq] at h
  have ht := List.find?_some h
  simp only [taken, Bool.not_eq_true', Bool.or_eq_false_iff] at ht
  refine ⟨fun hm => ?_, ht.2⟩
  rw [Std.HashSet.contains_iff_mem.2 hm] at ht
  exact Bool.noConfusion ht.1

theorem isLegal_of_free? {n : Names} {seed : RawText} {name : String}
    (h : n.free? (Identifier.ofText seed) = some name) : Identifier.isLegal name = true := by
  rw [free?_eq] at h
  exact isLegal_candidate (Identifier.isLegal_ofText seed) (List.mem_of_find?_eq_some h)

/-! ## What a request does -/

section Reserve
variable (n : Names) (words : List String)

theorem reserve_cons (w : String) : n.reserve (w :: words) = (n.reserveWord w).reserve words := rfl

theorem reserve_fields : (n.reserve words).used = n.used ∧ (n.reserve words).known = n.known ∧
    (n.reserve words).idNames = n.idNames ∧ (n.reserve words).failure = n.failure := by
  induction words generalizing n with
  | nil => exact ⟨rfl, rfl, rfl, rfl⟩
  | cons w ws ih =>
    obtain ⟨hu, hk, hi, hf⟩ := ih (n.reserveWord w)
    rw [reserve_cons, hu, hk, hi, hf, reserveWord]
    split <;> exact ⟨rfl, rfl, rfl, rfl⟩

@[simp] theorem used_reserve : (n.reserve words).used = n.used := (reserve_fields n words).1
@[simp] theorem known_reserve : (n.reserve words).known = n.known := (reserve_fields n words).2.1
@[simp] theorem idNames_reserve : (n.reserve words).idNames = n.idNames := (reserve_fields n words).2.2.1
@[simp] theorem failure_reserve : (n.reserve words).failure = n.failure := (reserve_fields n words).2.2.2

end Reserve

/-- A request for a fresh name hands out a free one, or records that none is left. -/
theorem distinct_cases (n : Names) (seed : RawText) (category : Category) :
    (∃ name, n.free? (Identifier.ofText seed) = some name ∧
      n.distinct seed category = (name, { n with used := n.used.insert name })) ∨
    (n.free? (Identifier.ofText seed) = none ∧
      n.distinct seed category =
        ("", { n with failure := n.failure.or (some ⟨Identifier.ofText seed, category⟩) })) := by
  unfold distinct distinctFrom
  cases h : n.free? (Identifier.ofText seed) with
  | some name => exact .inl ⟨name, rfl, rfl⟩
  | none => exact .inr ⟨rfl, rfl⟩

/-- A request for the name of a key finds it, hands out a free one and keeps it, or records that
none is left. -/
theorem get_cases (n : Names) (key : RawText) (category : Category) :
    (∃ name, n.known[slot (n.resolve key category) category]? = some name ∧ n.get key category = (name, n)) ∨
    (∃ name, n.known[slot (n.resolve key category) category]? = none ∧
      n.free? (Identifier.ofText (n.resolve key category)) = some name ∧
      n.get key category = (name, { n with
        used := n.used.insert name
        known := n.known.insert (slot (n.resolve key category) category) name })) ∨
    (n.known[slot (n.resolve key category) category]? = none ∧
      n.free? (Identifier.ofText (n.resolve key category)) = none ∧
      n.get key category = ("", { n with
        failure := n.failure.or (some ⟨Identifier.ofText (n.resolve key category), category⟩) })) := by
  unfold get
  dsimp only
  cases hk : n.known[slot (n.resolve key category) category]? with
  | some name => exact .inl ⟨name, rfl, rfl⟩
  | none =>
    rcases distinct_cases n (n.resolve key category) category with ⟨name, hf, hd⟩ | ⟨hf, hd⟩
    · -- a name that is handed out is legal, so it is not taken for the empty answer
      have hne := Identifier.ne_empty_of_isLegal (isLegal_of_free? hf)
      exact .inr (.inl ⟨name, rfl, hf, by simp [hd, hne]⟩)
    · exact .inr (.inr ⟨rfl, hf, by simp [hd]⟩)

/-! ## What every registry satisfies -/

/-- Names handed out are legal, the names of keys are among them, and no two keys share one. -/
structure Sound (n : Names) : Prop where
  legal : ∀ name ∈ n.used, Identifier.isLegal name = true
  known_used : ∀ (slot : RawText) (name : String), n.known[slot]? = some name → name ∈ n.used
  known_inj : ∀ (slot slot' : RawText) (name : String),
    n.known[slot]? = some name → n.known[slot']? = some name → slot = slot'

theorem Sound.isLegal_known {n : Names} (h : n.Sound) {slot : RawText} {name : String}
    (hk : n.known[slot]? = some name) : Identifier.isLegal name = true :=
  h.legal name (h.known_used slot name hk)

theorem sound_empty : ({} : Names).Sound where
  legal := by simp
  known_used := by simp
  known_inj := by simp

/-- Soundness speaks of the names handed out only. -/
theorem Sound.congr {n n' : Names} (h : n.Sound) (hu : n'.used = n.used) (hk : n'.known = n.known) : n'.Sound where
  legal := by rw [hu]; exact h.legal
  known_used := by rw [hu, hk]; exact h.known_used
  known_inj := by rw [hk]; exact h.known_inj

theorem sound_new (words : List String) : (new words).Sound :=
  sound_empty.congr (used_reserve _ words) (known_reserve _ words)

theorem Sound.insert_used {n : Names} (h : n.Sound) {name : String} (hl : Identifier.isLegal name = true) :
    ({ n with used := n.used.insert name } : Names).Sound where
  legal x hx := by
    rcases Std.HashSet.mem_insert.1 hx with he | hx
    · exact beq_iff_eq.1 he ▸ hl
    · exact h.legal x hx
  known_used slot x hx := Std.HashSet.mem_insert.2 (.inr (h.known_used slot x hx))
  known_inj := h.known_inj

theorem Sound.insert_known {n : Names} (h : n.Sound) {slot : RawText} {name : String}
    (hl : Identifier.isLegal name = true) (hf : name ∉ n.used) :
    ({ n with used := n.used.insert name, known := n.known.insert slot name } : Names).Sound where
  legal := (h.insert_used hl).legal
  known_used s x hx := by
    simp only [Std.HashMap.getElem?_insert] at hx
    split at hx
    · exact Std.HashSet.mem_insert.2 (.inl (by simpa using hx))
    · exact Std.HashSet.mem_insert.2 (.inr (h.known_used s x hx))
  known_inj s s' x hx hx' := by
    simp only [Std.HashMap.getElem?_insert] at hx hx'
    -- the fresh name is no other key's, since those are all used
    split at hx <;> split at hx'
    · simp_all
    · cases hx; exact absurd (h.known_used _ _ hx') hf
    · cases hx'; exact absurd (h.known_used _ _ hx) hf
    · exact h.known_inj s s' x hx hx'

/-- Every request keeps a registry sound. -/
theorem Sound.serve {n : Names} (h : n.Sound) (r : Request) : (n.serve r).2.Sound := by
  cases r with
  | reserve words => exact h.congr (used_reserve n words) (known_reserve n words)
  | setVariables idNames => exact h.congr rfl rfl
  | reset => exact sound_empty.congr rfl rfl
  | distinct seed category =>
    simp only [Names.serve]
    rcases distinct_cases n seed category with ⟨name, hf, hd⟩ | ⟨-, hd⟩
    · rw [hd]; exact h.insert_used (isLegal_of_free? hf)
    · rw [hd]; exact h.congr rfl rfl
  | get key category =>
    simp only [Names.serve]
    rcases get_cases n key category with ⟨name, -, hg⟩ | ⟨name, -, hf, hg⟩ | ⟨-, -, hg⟩
    · rw [hg]; exact h
    · rw [hg]; exact h.insert_known (isLegal_of_free? hf) (free_of_free? hf).1
    · rw [hg]; exact h.congr rfl rfl

theorem Sound.after {n : Names} (h : n.Sound) (rs : List Request) : (n.after rs).Sound := by
  induction rs generalizing n with
  | nil => exact h
  | cons r rs ih => exact ih (h.serve r)

/-- A name that is asked for is legal, unless none is left and the failure is on record. -/
def Answered (answer : String × Names) : Prop :=
  Identifier.isLegal answer.1 = true ∨ answer.1 = "" ∧ answer.2.failure ≠ none

theorem answered_distinct (n : Names) (seed : RawText) (category : Category) : Answered (n.distinct seed category) := by
  rcases distinct_cases n seed category with ⟨name, hf, hd⟩ | ⟨-, hd⟩
  · rw [hd]; exact .inl (isLegal_of_free? hf)
  · rw [hd]; exact .inr ⟨rfl, by cases h : n.failure <;> simp⟩

theorem Sound.answered_get {n : Names} (h : n.Sound) (key : RawText) (category : Category) :
    Answered (n.get key category) := by
  rcases get_cases n key category with ⟨name, hk, hg⟩ | ⟨name, -, hf, hg⟩ | ⟨-, -, hg⟩
  · rw [hg]; exact .inl (h.isLegal_known hk)
  · rw [hg]; exact .inl (isLegal_of_free? hf)
  · rw [hg]; exact .inr ⟨rfl, by cases h : n.failure <;> simp⟩

/-! ## What a run keeps -/

/-- What stays from one registry to a later one of the same pass. -/
structure Grows (n n' : Names) : Prop where
  used : ∀ name ∈ n.used, name ∈ n'.used
  known : ∀ (slot : RawText) (name : String), n.known[slot]? = some name → n'.known[slot]? = some name
  failure : ∀ e, n.failure = some e → n'.failure = some e

theorem Grows.refl (n : Names) : n.Grows n := ⟨fun _ h => h, fun _ _ h => h, fun _ h => h⟩

theorem Grows.failure_none {n n' : Names} (h : n.Grows n') (hn : n'.failure = none) : n.failure = none := by
  cases hf : n.failure with
  | none => rfl
  | some e => exact absurd (h.failure e hf) (by simp [hn])

theorem Grows.trans {n n' n'' : Names} (h : n.Grows n') (h' : n'.Grows n'') : n.Grows n'' :=
  ⟨fun _ hx => h'.used _ (h.used _ hx), fun _ _ hx => h'.known _ _ (h.known _ _ hx),
    fun _ hx => h'.failure _ (h.failure _ hx)⟩

theorem grows_fail (n : Names) (e : Exhausted) : n.Grows { n with failure := n.failure.or (some e) } :=
  ⟨fun _ h => h, fun _ _ h => h, fun e' h => by simp [h]⟩

theorem grows_insert (n : Names) (name : String) : n.Grows { n with used := n.used.insert name } :=
  ⟨fun _ h => Std.HashSet.mem_insert.2 (.inr h), fun _ _ h => h, fun _ h => h⟩

theorem grows_distinct (n : Names) (seed : RawText) (category : Category) : n.Grows (n.distinct seed category).2 := by
  rcases distinct_cases n seed category with ⟨name, -, hd⟩ | ⟨-, hd⟩
  · rw [hd]; exact grows_insert n name
  · rw [hd]; exact grows_fail n _

theorem grows_get (n : Names) (key : RawText) (category : Category) : n.Grows (n.get key category).2 := by
  rcases get_cases n key category with ⟨name, -, hg⟩ | ⟨name, hk, -, hg⟩ | ⟨-, -, hg⟩
  · rw [hg]; exact .refl n
  · rw [hg]
    refine ⟨(grows_insert n name).used, fun s x hx => ?_, fun _ h => h⟩
    simp only [Std.HashMap.getElem?_insert]
    split
    · rename_i he
      rw [beq_iff_eq.1 he, hx] at hk
      cases hk
    · exact hx
  · rw [hg]; exact grows_fail n _

theorem grows_serve (n : Names) {r : Request} (hr : r ≠ .reset) : n.Grows (n.serve r).2 := by
  cases r with
  | reserve words => exact ⟨by simp [serve], by simp [serve], by simp [serve]⟩
  | setVariables idNames => exact ⟨fun _ h => h, fun _ _ h => h, fun _ h => h⟩
  | reset => exact absurd rfl hr
  | distinct seed category => exact grows_distinct n seed category
  | get key category => exact grows_get n key category

theorem grows_after (n : Names) {rs : List Request} (hrs : .reset ∉ rs) : n.Grows (n.after rs) := by
  induction rs generalizing n with
  | nil => exact .refl n
  | cons r rs ih =>
    obtain ⟨hr, hrs⟩ := not_or.1 (mt List.mem_cons.2 hrs)
    exact (grows_serve n (Ne.symm hr)).trans (ih _ hrs)

end Blockwright.Names

/-! ## Fresh names -/

namespace Blockwright.Names

/-! ## What has been handed out -/

/-- The names handed out so far, after one more answer. -/
def given (seen : List String) (e : Request × String) : List String :=
  if e.1 = .reset then [] else if e.2 = "" then seen else e.2 :: seen

theorem given_name {seen : List String} {r : Request} {name : String} (hr : r ≠ .reset) (hne : name ≠ "") :
    given seen (r, name) = name :: seen := by
  simp [given, hr, hne]

theorem given_empty {seen : List String} {r : Request} (hr : r ≠ .reset) : given seen (r, "") = seen := by
  simp [given, hr]

/-- The names handed out in a run since its last reset. -/
def handedOut (run : List (Request × String)) : List String := run.foldl given []

/-- The names in use are those that have been handed out. -/
def Records (n : Names) (seen : List String) : Prop := ∀ name, name ∈ n.used ↔ name ∈ seen

theorem records_new (words : List String) : (new words).Records [] := by
  intro name
  rw [new, used_reserve]
  simp

theorem Records.insert {n : Names} {seen : List String} (h : n.Records seen) (name : String) :
    ∀ x, x ∈ n.used.insert name ↔ x ∈ name :: seen := by
  intro x
  rw [Std.HashSet.mem_insert, List.mem_cons, h x, beq_iff_eq]
  exact or_congr_left eq_comm

theorem records_serve {n : Names} {seen : List String} (hn : n.Sound) (h : n.Records seen) (r : Request) :
    (n.serve r).2.Records (given seen (r, (n.serve r).1)) := by
  cases r with
  | reserve words => intro name; simpa [serve, given] using h name
  | setVariables idNames => intro name; simpa [serve, given] using h name
  | reset => intro name; simp [serve, reset, given]
  | distinct seed category =>
    simp only [serve]
    rcases distinct_cases n seed category with ⟨name, hf, hd⟩ | ⟨-, hd⟩
    · rw [hd, given_name (by simp) (Identifier.ne_empty_of_isLegal (isLegal_of_free? hf))]
      exact h.insert name
    · rw [hd, given_empty (by simp)]
      exact h
  | get key category =>
    simp only [serve]
    rcases get_cases n key category with ⟨name, hk, hg⟩ | ⟨name, -, hf, hg⟩ | ⟨-, -, hg⟩
    · -- the name of a known key has been handed out before
      have hu := hn.known_used _ _ hk
      rw [hg, given_name (by simp) (Identifier.ne_empty_of_isLegal (hn.legal name hu))]
      intro x
      rw [List.mem_cons, ← h x]
      exact ⟨.inr, fun hx => hx.elim (fun he => he ▸ hu) id⟩
    · rw [hg, given_name (by simp) (Identifier.ne_empty_of_isLegal (isLegal_of_free? hf))]
      exact h.insert name
    · rw [hg, given_empty (by simp)]
      exact h

theorem records_after {n : Names} {seen : List String} (hn : n.Sound) (h : n.Records seen) (rs : List Request) :
    (n.after rs).Records ((n.trace rs).foldl given seen) := by
  induction rs generalizing n seen with
  | nil => exact h
  | cons r rs ih => exact ih (hn.serve r) (records_serve hn h r)

/-! ## The first free candidate -/

/-- Whether a name may be handed out behind a run: it is not reserved, and the run has not
handed it out. -/
def isFree (n : Names) (run : List (Request × String)) (name : String) : Bool :=
  !n.isReserved name && !(handedOut run).contains name

theorem isFree_eq (words : List String) (rs : List Request) (name : String) :
    isFree ((new words).after rs) ((new words).trace rs) name = !((new words).after rs).taken name := by
  have h := records_after (sound_new words) (records_new words) rs name
  have hc : ((new words).after rs).used.contains name = (handedOut ((new words).trace rs)).contains name := by
    rw [Bool.eq_iff_iff, Std.HashSet.contains_iff_mem, List.contains_iff_mem]
    exact h
  rw [isFree, taken, hc, Bool.not_or, Bool.and_comm]

theorem free?_after (words : List String) (rs : List Request) (base : String) :
    ((new words).after rs).free? base =
      (candidates base).find? (isFree ((new words).after rs) ((new words).trace rs)) := by
  rw [free?_eq]
  exact congrArg (List.find? · _) (funext fun name => (isFree_eq words rs name).symm)

/-- A request for a fresh name does not fail while one of its candidates is free. -/
theorem failure_distinct_of_free {n : Names} {seed : RawText} {category : Category} {name : String}
    (hmem : name ∈ candidates (Identifier.ofText seed)) (hfree : n.taken name = false) :
    (n.distinct seed category).2.failure = n.failure := by
  rcases distinct_cases n seed category with ⟨name', -, hd⟩ | ⟨hnone, -⟩
  · rw [hd]
  · rw [free?_eq, List.find?_eq_none] at hnone
    exact absurd hfree (by simpa using hnone name hmem)

/-- What a run leaves of a failure: the first one stays. -/
theorem failure_distinct {n : Names} {seed : RawText} {category : Category}
    (h : n.free? (Identifier.ofText seed) = none) :
    (n.distinct seed category).2.failure = some (n.failure.getD ⟨Identifier.ofText seed, category⟩) := by
  rcases distinct_cases n seed category with ⟨name, hf, -⟩ | ⟨-, hd⟩
  · rw [h] at hf; cases hf
  · rw [hd]; cases n.failure <;> rfl

/-- Behind any run a fresh name is the first candidate that is neither reserved nor handed out
since the last reset; it is a legal identifier and differs from all of those. When no candidate
is left the answer is empty, the names stay as they were, and the failure recorded is the first
of the pass, until a reset. -/
theorem distinct_takes_first_free (words : List String) (rs : List Request) (seed : RawText) (category : Category) :
    let n := (new words).after rs
    let run := (new words).trace rs
    let base := Identifier.ofText seed
    let answer := n.distinct seed category
    match (candidates base).find? (isFree n run) with
    | some name =>
      answer.1 = name ∧ Identifier.isLegal name = true ∧ n.isReserved name = false ∧ name ∉ handedOut run
    | none =>
      answer.1 = "" ∧ answer.2.known = n.known ∧ answer.2.used = n.used ∧
        ∀ rs', .reset ∉ rs' → (answer.2.after rs').failure = some (n.failure.getD ⟨base, category⟩) := by
  intro n run base answer
  -- the registry searches by what it has marked as used, which is what the run has handed out
  have hfree : n.free? base = (candidates base).find? (isFree n run) := free?_after words rs base
  split
  · rename_i name hs
    rw [hs] at hfree
    rcases distinct_cases n seed category with ⟨name', hf, hd⟩ | ⟨hf, -⟩
    · rw [hfree, Option.some.injEq] at hf
      subst hf
      have hout := List.find?_some hs
      simp only [isFree, Bool.and_eq_true, Bool.not_eq_true'] at hout
      refine ⟨congrArg Prod.fst hd, isLegal_of_free? hfree, hout.1, fun hm => ?_⟩
      rw [List.contains_iff_mem.2 hm] at hout
      exact Bool.noConfusion hout.2
    · rw [hfree] at hf; cases hf
  · rename_i hs
    rw [hs] at hfree
    rcases distinct_cases n seed category with ⟨name', hf, -⟩ | ⟨-, hd⟩
    · rw [hfree] at hf; cases hf
    · refine ⟨congrArg Prod.fst hd, ?_, ?_, fun rs' hrs => ?_⟩
      · rw [show answer = _ from hd]
      · rw [show answer = _ from hd]
      · exact (grows_after _ hrs).failure _ (failure_distinct hfree)

end Blockwright.Names
