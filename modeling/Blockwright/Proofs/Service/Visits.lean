import Blockwright.Cache.Basic
import Blockwright.Proofs.Entries
import Blockwright.Proofs.Json.Strings
import Blockwright.Service.Generate
import Mathlib.Tactic.SplitIfs
/-!
# Services that share a cache

A cache that answers gives what was last kept under the key, whichever kind of cache it is, and the keys
tell apart what was digested, as long as no two digests collide. Services answer requests one after the
other from one cache, which may fail at any time, lose what it holds and be used by others for keys of
their own. Code is in the cache only because a request of the run made it and the cache took it, and it is
the code of the last such request for its key.
-/

/-! ## What a cache holds -/

namespace Blockwright

/-! ## Keeping and finding -/

namespace KeyStore

/-- The text that a stored text spells as a JSON string. -/
def spelled? (e : StoredText) : Option String := (Json.parse? (Text.bytesOf e.text)).bind (Json.Reader.string "")

theorem toOption_getString (s : KeyStore) (key : String) :
    (s.getString key).toOption = if s.state = .up then (s.entries.lookup key).bind spelled? else none := by
  rcases s with ⟨entries, _ | _ | _⟩
  · rw [if_pos rfl]
    unfold getString text failure?
    cases hl : entries.lookup key with
    | none => rfl
    | some e =>
      simp only [bind, Except.bind, Option.bind_some, spelled?]
      cases (Json.parse? (Text.bytesOf e.text)).bind (Json.Reader.string "") <;> rfl
  · rfl
  · rfl

end KeyStore

namespace Cache

open Entries

/-- What a cache holds under a key, whether or not it answers. -/
def held? (c : Cache) (key : String) : Option String :=
  match c with
  | .off => none
  | .memory entries _ => entries.lookup key
  | .store s => (s.entries.lookup key).bind KeyStore.spelled?

/-- Whether a cache keeps what it is given. -/
def takes : Cache → Bool
  | .off => false
  | .memory _ faults => !faults.set
  | .store s => s.state = .up

theorem held?_of_get? {c : Cache} {key code : String} (h : c.get? key = some code) : c.held? key = some code := by
  cases c with
  | off => cases h
  | memory entries faults =>
    rw [get?] at h
    split_ifs at h
    exact h
  | store s =>
    rw [get?, KeyStore.toOption_getString] at h
    split_ifs at h
    exact h

theorem set_of_not_takes {c : Cache} (h : c.takes = false) (key code : String) (minutes : Int) :
    c.set key code minutes = c := by
  cases c with
  | off => rfl
  | memory entries faults =>
    have hset : faults.set = true := by simpa [takes] using h
    rw [set, if_pos hset]
  | store s =>
    rcases s with ⟨entries, _ | _ | _⟩
    · cases h
    · rfl
    · rfl

theorem held?_set {c : Cache} (h : c.takes = true) (key code : String) (minutes : Int) (key' : String) :
    (c.set key code minutes).held? key' = if key' = key then some code else c.held? key' := by
  cases c with
  | off => cases h
  | memory entries faults =>
    have hset : ¬ faults.set = true := by simpa [takes] using h
    rw [set, if_neg hset, held?, lookup_cons_eq]
    split_ifs with hkey
    · rfl
    · exact lookup_filter_ne entries hkey
  | store s =>
    rcases s with ⟨entries, _ | _ | _⟩
    · show ((Entries.put entries key _).lookup key').bind KeyStore.spelled? = _
      rw [lookup_put]
      by_cases hkey : key' = key
      · rw [if_pos hkey, if_pos hkey, Option.bind_some, KeyStore.spelled?, Json.render, Json.parse?_quoteString]
        rfl
      · rw [if_neg hkey, if_neg hkey]
        rfl
    · cases h
    · cases h

end Cache

/-! ## Keys -/

theorem Text.bytesOfHex?_hexOfBytes (bytes : Bytes) : bytesOfHex? (hexOfBytes bytes).toList = some bytes := by
  rw [hexOfBytes, String.toList_ofList]
  induction bytes with
  | nil => rfl
  | cons b bytes ih =>
    have hb : b.toNat < 256 := b.toNat_lt
    have hpair : hexPadded 2 b.toNat = [hexDigit (b.toNat / 16 % 16), hexDigit (b.toNat % 16)] := rfl
    rw [List.flatMap_cons, hpair, List.cons_append, List.cons_append, List.nil_append, bytesOfHex?,
      hexValue?_hexDigit (Nat.mod_lt _ (by decide)), hexValue?_hexDigit (Nat.mod_lt _ (by decide)), ih]
    have hback : b.toNat / 16 % 16 * 16 + b.toNat % 16 = b.toNat := by omega
    simp only [Option.bind_eq_bind, Option.bind_some, hback, UInt8.ofNat_toNat]
    rfl

theorem Text.hexOfBytes_injective {bytes bytes' : Bytes} (h : hexOfBytes bytes = hexOfBytes bytes') :
    bytes = bytes' := by
  have hread := bytesOfHex?_hexOfBytes bytes
  rw [h, bytesOfHex?_hexOfBytes] at hread
  exact (Option.some.inj hread).symm

/-- What is digested tells the document and the index mode. -/
theorem checksumText_injective {document document' : Bytes} {oneBased oneBased' : Bool}
    (h : checksumText document oneBased = checksumText document' oneBased') :
    document = document' ∧ oneBased = oneBased' := by
  have htrue : Text.bytesOf ("|oneBased=" ++ Text.ofBool true)
      = [124, 111, 110, 101, 66, 97, 115, 101, 100, 61, 116, 114, 117, 101] := by
    rw [Text.bytesOf_eq]
    decide
  have hfalse : Text.bytesOf ("|oneBased=" ++ Text.ofBool false)
      = [124, 111, 110, 101, 66, 97, 115, 101, 100, 61, 102, 97, 108, 115, 101] := by
    rw [Text.bytesOf_eq]
    decide
  unfold checksumText at h
  cases oneBased <;> cases oneBased'
  · exact ⟨List.append_cancel_right h, rfl⟩
  · rw [htrue, hfalse] at h
    have hend := congrArg List.reverse h
    simp at hend
  · rw [htrue, hfalse] at h
    have hend := congrArg List.reverse h
    simp at hend
  · exact ⟨List.append_cancel_right h, rfl⟩

theorem cacheKey_injective {sum sum' : String} (h : cacheKey sum = cacheKey sum') : sum = sum' := by
  have hchars := congrArg String.toList h
  rw [cacheKey, cacheKey, String.toList_append, String.toList_append] at hchars
  exact String.toList_injective (List.append_cancel_left hchars)

/-- One key for two requests means one digest. -/
theorem sha256_eq_of_cacheKey {document document' : Bytes} {oneBased oneBased' : Bool}
    (h : cacheKey (checksum document oneBased) = cacheKey (checksum document' oneBased')) :
    Digest.sha256 (checksumText document oneBased) = Digest.sha256 (checksumText document' oneBased') :=
  Text.hexOfBytes_injective (cacheKey_injective h)

/-- A key that generated code is kept under. -/
def isCodeKey (key : String) : Bool := "gen:".toList.isPrefixOf key.toList

theorem isCodeKey_cacheKey (sum : String) : isCodeKey (cacheKey sum) = true := by
  rw [isCodeKey, cacheKey, String.toList_append, List.isPrefixOf_iff_prefix]
  exact List.prefix_append _ _

end Blockwright

namespace Blockwright

/-! ## Visits -/

/-- Between two requests a cache may change how it answers, lose code and change in what it holds
under other keys, but it gets no code by itself. -/
def Cache.DriftsTo (c c' : Cache) : Prop :=
  ∀ key, isCodeKey key = true → c'.held? key = none ∨ c'.held? key = c.held? key

/-- Calls may fail at one time and not at another. -/
theorem Cache.driftsTo_faults (entries : List (String × String)) (faults faults' : CacheFaults) :
    (Cache.memory entries faults).DriftsTo (.memory entries faults') := fun _ _ => .inr rfl

/-- A server may go away and come back. -/
theorem Cache.driftsTo_state (entries : List (String × StoredText)) (state state' : ServerState) :
    (Cache.store ⟨entries, state⟩).DriftsTo (.store ⟨entries, state'⟩) := fun _ _ => .inr rfl

/-- A request to a service, and the cache that it met. -/
structure Visit where
  document : Bytes
  oneBased : Option Bool
  cache : Cache

namespace Visit

variable (v : Service) (e : Visit)

/-- What the service answered. -/
def outcome : Outcome := (v.generate e.cache e.document e.oneBased).1

/-- The answer of the service without a cache. -/
def plainOutcome : Outcome := (v.generate .off e.document e.oneBased).1

/-- The cache behind the request. -/
def cacheBehind : Cache := (v.generate e.cache e.document e.oneBased).2

/-- What is digested for the request. -/
def digested : Bytes := checksumText e.document (v.indexMode e.oneBased)

/-- The key of the request. -/
def key : String := cacheKey (checksum e.document (v.indexMode e.oneBased))

/-- The program was made for this request. -/
def Made (code : String) : Prop := (e.outcome v).cached = false ∧ (e.outcome v).code = .ok code

/-- The program was made for this request and the cache took it. -/
def Stored : Prop := (∃ code, e.Made v code) ∧ e.cache.takes = true

end Visit

/-! ## One request -/

namespace Service

variable {v : Service}

/-- A request finds its program in the cache, makes it and offers it to the cache, or fails and
leaves the cache alone. -/
theorem generate_cases (v : Service) (c : Cache) (document : Bytes) (oneBased : Option Bool) :
    let base := v.indexMode oneBased
    let sum := checksum document base
    (∃ code, c.get? (cacheKey sum) = some code ∧
      v.generate c document oneBased = ({ checksum := sum, cached := true, code := .ok code }, c)) ∨
    (∃ code, v.settings.compile document base = .ok code ∧
      v.generate c document oneBased =
        ({ checksum := sum, cached := false, code := .ok code }, c.set (cacheKey sum) code v.cacheMinutes)) ∨
    (∃ e, v.settings.compile document base = .error e ∧
      v.generate c document oneBased = ({ checksum := sum, cached := false, code := .error e }, c)) := by
  intro base sum
  unfold generate
  dsimp only
  cases hget : c.get? (cacheKey (checksum document (v.indexMode oneBased))) with
  | some code => exact .inl ⟨code, rfl, rfl⟩
  | none =>
    cases hcompile : v.settings.compile document (v.indexMode oneBased) with
    | ok code => exact .inr (.inl ⟨code, rfl, rfl⟩)
    | error e => exact .inr (.inr ⟨e, rfl, rfl⟩)

end Service

namespace Visit

variable {v : Service} (e : Visit)

theorem plainOutcome_eq : e.plainOutcome v =
    { checksum := checksum e.document (v.indexMode e.oneBased), cached := false,
      code := v.settings.compile e.document (v.indexMode e.oneBased) } := by
  unfold plainOutcome
  rcases v.generate_cases .off e.document e.oneBased with ⟨code, hget, -⟩ | ⟨code, hc, hg⟩ | ⟨r, hc, hg⟩
  · cases hget
  · rw [hg, hc]
  · rw [hg, hc]

theorem checksum_outcome : (e.outcome v).checksum = (e.plainOutcome v).checksum := by
  rw [plainOutcome_eq, outcome]
  rcases v.generate_cases e.cache e.document e.oneBased with ⟨code, -, hg⟩ | ⟨code, -, hg⟩ | ⟨r, -, hg⟩ <;> rw [hg]

/-- An answer from the cache is what the cache holds under the key of the request. -/
theorem held?_of_cached (h : (e.outcome v).cached = true) :
    ∃ code, e.cache.held? (e.key v) = some code ∧ (e.outcome v).code = .ok code := by
  unfold outcome at h ⊢
  rcases v.generate_cases e.cache e.document e.oneBased with ⟨code, hget, hg⟩ | ⟨code, -, hg⟩ | ⟨r, -, hg⟩
  · rw [hg]
    exact ⟨code, Cache.held?_of_get? hget, rfl⟩
  · rw [hg] at h
    cases h
  · rw [hg] at h
    cases h

theorem code_of_not_cached (h : (e.outcome v).cached = false) : (e.outcome v).code = (e.plainOutcome v).code := by
  rw [plainOutcome_eq]
  unfold outcome at h ⊢
  rcases v.generate_cases e.cache e.document e.oneBased with ⟨code, -, hg⟩ | ⟨code, hc, hg⟩ | ⟨r, hc, hg⟩
  · rw [hg] at h
    cases h
  · rw [hg, hc]
  · rw [hg, hc]

/-- A request that fails leaves the cache alone. -/
theorem cacheBehind_of_error {rejection : Rejection} (h : (e.outcome v).code = .error rejection) :
    e.cacheBehind v = e.cache := by
  unfold outcome at h
  unfold cacheBehind
  rcases v.generate_cases e.cache e.document e.oneBased with ⟨code, -, hg⟩ | ⟨code, -, hg⟩ | ⟨r, -, hg⟩
  · rw [hg] at h
    cases h
  · rw [hg] at h
    cases h
  · rw [hg]

end Visit

/-! ## Runs of several services -/

/-- A request to one of the services. -/
structure Turn where
  service : Service
  visit : Visit

namespace Turn

variable (t t' : Turn)

/-- What the service answered. -/
def outcome : Outcome := t.visit.outcome t.service

/-- The answer of the service without a cache. -/
def plainOutcome : Outcome := t.visit.plainOutcome t.service

/-- What is digested for the request. -/
def digested : Bytes := t.visit.digested t.service

/-- The key of the request. -/
def key : String := t.visit.key t.service

/-- The program was made for this request and the cache took it. -/
def Stored : Prop := t.visit.Stored t.service

/-- Both requests are for one document in one index mode. -/
def SameRequest : Prop :=
  t.visit.document = t'.visit.document ∧
    t.service.indexMode t.visit.oneBased = t'.service.indexMode t'.visit.oneBased

/-- No two texts that the run digests have one digest. -/
def NoCollision (turns : List Turn) : Prop :=
  ∀ t ∈ turns, ∀ t' ∈ turns, Digest.sha256 t.digested = Digest.sha256 t'.digested → t.digested = t'.digested

variable {t t'}

theorem NoCollision.sameRequest {turns : List Turn} (h : NoCollision turns) (ht : t ∈ turns) (ht' : t' ∈ turns)
    (hkey : t.key = t'.key) : t.SameRequest t' :=
  checksumText_injective (h t ht t' ht' (sha256_eq_of_cacheKey hkey))

theorem SameRequest.key_eq (h : t.SameRequest t') : t.key = t'.key := by
  unfold key Visit.key
  rw [h.1, h.2]

end Turn

/-- Runs of services on one cache: the requests so far, and the cache behind them. -/
inductive Shares (start : Cache) : List Turn → Cache → Prop where
  | start : Shares start [] start
  | drift {turns : List Turn} {c c' : Cache} : Shares start turns c → c.DriftsTo c' → Shares start turns c'
  | turn {turns : List Turn} {c : Cache} (v : Service) (document : Bytes) (oneBased : Option Bool) :
    Shares start turns c → Shares start (turns ++ [⟨v, document, oneBased, c⟩]) (v.generate c document oneBased).2

/-- The cache that a request met is one that the requests before it led to. -/
theorem Shares.before {start c : Cache} {turns earlier later : List Turn} {t : Turn} (h : Shares start turns c)
    (hsplit : turns = earlier ++ t :: later) : Shares start earlier t.visit.cache := by
  induction h generalizing later with
  | start => simp at hsplit
  | drift _ _ ih => exact ih hsplit
  | @turn turns c v document oneBased h ih =>
    rcases List.eq_nil_or_concat later with rfl | ⟨later', last, rfl⟩
    · obtain ⟨rfl, ht⟩ := List.append_inj' hsplit rfl
      rw [← List.singleton_inj.1 ht]
      exact h
    · rw [List.concat_eq_append, ← List.cons_append, ← List.append_assoc] at hsplit
      exact ih (List.append_inj' hsplit rfl).1

/-! ## What is in the cache -/

/-- The code was made for a request with the key and stored, and no later request with it was. -/
def LastStored (turns : List Turn) (key code : String) : Prop :=
  ∃ before t after, turns = before ++ t :: after ∧ t.key = key ∧ t.Stored ∧ t.plainOutcome.code = .ok code ∧
    ∀ t' ∈ after, t'.key = key → ¬ t'.Stored

/-- Under every key the cache holds what was stored last, or nothing. -/
def Cache.HoldsLast (turns : List Turn) (c : Cache) : Prop :=
  ∀ key code, isCodeKey key = true → c.held? key = some code → LastStored turns key code

namespace LastStored

variable {turns : List Turn} {t : Turn} {key code : String}

theorem concat (h : LastStored turns key code) (ht : t.key = key → ¬ t.Stored) :
    LastStored (turns ++ [t]) key code := by
  obtain ⟨before, t', after, rfl, hkey, hstored, hcode, hlater⟩ := h
  refine ⟨before, t', after ++ [t], by simp, hkey, hstored, hcode, fun t'' ht'' => ?_⟩
  rcases List.mem_append.1 ht'' with hafter | hlast
  · exact hlater t'' hafter
  · rw [List.mem_singleton.1 hlast]
    exact ht

theorem last (turns : List Turn) (hstored : t.Stored) (hcode : t.plainOutcome.code = .ok code) :
    LastStored (turns ++ [t]) t.key code :=
  ⟨turns, t, [], rfl, rfl, hstored, hcode, by simp⟩

end LastStored

namespace Cache.HoldsLast

variable {turns : List Turn} {c c' : Cache}

theorem drift (h : c.HoldsLast turns) (hdrift : c.DriftsTo c') : c'.HoldsLast turns := by
  intro key code hkey hheld
  rcases hdrift key hkey with hlost | hsame
  · rw [hlost] at hheld
    cases hheld
  · exact h key code hkey (hsame ▸ hheld)

theorem concat (h : c.HoldsLast turns) {t : Turn} (ht : ¬ t.Stored) : c.HoldsLast (turns ++ [t]) :=
  fun key code hkey hheld => (h key code hkey hheld).concat fun _ => ht

theorem turn (h : c.HoldsLast turns) (v : Service) (document : Bytes) (oneBased : Option Bool) :
    (v.generate c document oneBased).2.HoldsLast (turns ++ [⟨v, document, oneBased, c⟩]) := by
  rcases v.generate_cases c document oneBased with ⟨code, -, hg⟩ | ⟨code, hc, hg⟩ | ⟨r, -, hg⟩
  · have hnot : ¬ Turn.Stored ⟨v, document, oneBased, c⟩ := by
      rintro ⟨⟨code', hmade, -⟩, -⟩
      rw [Visit.outcome, hg] at hmade
      cases hmade
    rw [hg]
    exact h.concat hnot
  · rw [hg]
    cases htakes : c.takes with
    | false =>
      rw [Cache.set_of_not_takes htakes]
      exact h.concat fun hstored => Bool.false_ne_true (htakes.symm.trans hstored.2)
    | true =>
      intro key code' hkey hheld
      rw [Cache.held?_set htakes] at hheld
      split_ifs at hheld with hown
      · -- the code that is held is the code that was just made
        obtain rfl := Option.some.inj hheld
        rw [hown]
        refine LastStored.last turns (t := ⟨v, document, oneBased, c⟩) ⟨⟨code, ?_, ?_⟩, htakes⟩ ?_
        · exact congrArg (·.1.cached) hg
        · exact congrArg (·.1.code) hg
        · rw [Turn.plainOutcome, Visit.plainOutcome_eq]
          exact hc
      · exact (h key code' hkey hheld).concat fun heq => absurd heq.symm hown
  · have hnot : ¬ Turn.Stored ⟨v, document, oneBased, c⟩ := by
      rintro ⟨⟨code', -, hcode⟩, -⟩
      rw [Visit.outcome, hg] at hcode
      cases hcode
    rw [hg]
    exact h.concat hnot

end Cache.HoldsLast

theorem Shares.holdsLast {start c : Cache} {turns : List Turn} (h : Shares start turns c)
    (hfresh : ∀ key, isCodeKey key = true → start.held? key = none) : c.HoldsLast turns := by
  induction h with
  | start =>
    intro key code hkey hheld
    rw [hfresh key hkey] at hheld
    cases hheld
  | drift _ hdrift ih => exact ih.drift hdrift
  | turn v document oneBased _ ih => exact ih.turn v document oneBased

end Blockwright
