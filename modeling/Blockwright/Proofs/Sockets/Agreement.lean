import Blockwright.Kind.Registry
import Blockwright.Proofs.Names.Identifiers
import Blockwright.Proofs.Sockets.Probes
import Blockwright.Proofs.Workspace.Decoded
/-!
# The decoder and the emitters

The decoder makes a socket one for statements by a table of the standard kinds, by the definitions
of the custom kinds, or by the name of the socket. That is how the emitters read it, for every kind
and every socket but one family: the branches of `controls_ifelse` behind the first.
-/

namespace Blockwright

open Emit

namespace SocketName

/-- The name of a socket without a number. -/
def name? : SocketName → Option String
  | .named name => some name
  | .numbered _ => none

theorem name?_of_fits {n : SocketName} {socket name : String} (hn : n.name? = some name) (h : n.Fits socket) :
    socket = name := by
  cases n with
  | named name' => exact h.trans (Option.some.inj hn)
  | numbered start => cases hn

end SocketName

/-- The kind of a socket when documents are read with the kinds of the library. -/
abbrev standardSocketKind (kind socket : String) : SocketKind :=
  socketKind (some Kind.Registry.standard.classify) kind socket

/-! ## What the decoder says -/

theorem ofNat_eq_zero {n : Nat} (h : Text.ofNat n = "0") : n = 0 := by
  have hdigits : Nat.toDigits 10 n = Nat.toDigits 10 0 := String.ofList_injective h
  have hvalue := congrArg (Nat.ofDigitChars 10 · 0) hdigits
  simpa only [Nat.ofDigitChars_toDigits (b := 10) (by decide) (by decide)] using hvalue

theorem standardSocketKind_controls_if (socket : String) : standardSocketKind "controls_if" socket =
    if isStatementName "controls_if" socket then .statement else .value := rfl

theorem standardSocketKind_controls_ifelse (socket : String) : standardSocketKind "controls_ifelse" socket =
    if ["DO0", "ELSE"].contains socket then .statement else .value := rfl

theorem append_ne {start text : String} {c : Char} (hstart : start.toList.head? = some c)
    (htext : text.toList.head? ≠ some c) (rest : String) : start ++ rest ≠ text := by
  rintro rfl
  rw [String.toList_append, List.head?_append, hstart] at htext
  exact htext rfl

theorem isStatementName_if (n : Nat) : isStatementName "controls_if" ("IF" ++ Text.ofNat n) = false := by
  have helse : "IF" ++ Text.ofNat n ≠ "ELSE" := append_ne (c := 'I') rfl (by decide) _
  have hstack : "IF" ++ Text.ofNat n ≠ "STACK" := append_ne (c := 'I') rfl (by decide) _
  simp [isStatementName, helse, hstack]

theorem isStatementName_do (n : Nat) : isStatementName "controls_if" ("DO" ++ Text.ofNat n) = true := by
  have helse : "DO" ++ Text.ofNat n ≠ "ELSE" := append_ne (c := 'D') rfl (by decide) _
  have hdigits : ∀ c ∈ (Text.ofNat n).toList, Text.isDigit c = true := fun c => Identifier.isDigit_of_mem_ofNat
  simpa [isStatementName, helse] using Or.inr hdigits

theorem contains_if (n : Nat) : ["DO0", "ELSE"].contains ("IF" ++ Text.ofNat n) = false := by
  have hdo : "IF" ++ Text.ofNat n ≠ "DO0" := append_ne (c := 'I') rfl (by decide) _
  have helse : "IF" ++ Text.ofNat n ≠ "ELSE" := append_ne (c := 'I') rfl (by decide) _
  simp [hdo, helse]

theorem contains_do (n : Nat) : ["DO0", "ELSE"].contains ("DO" ++ Text.ofNat n) = true ↔ n = 0 := by
  have helse : "DO" ++ Text.ofNat n ≠ "ELSE" := append_ne (c := 'D') rfl (by decide) _
  have hzero : "DO" ++ Text.ofNat n = "DO0" ↔ n = 0 := by
    refine ⟨fun h => ofNat_eq_zero ?_, fun h => by rw [h]; rfl⟩
    have hlist := congrArg String.toList h
    rw [String.toList_append] at hlist
    exact String.toList_injective (List.append_cancel_left (hlist.trans (rfl : "DO0".toList = "DO".toList ++ "0".toList)))
  simp [helse, hzero]

/-- A branch of the kind with exactly two, behind the first. -/
def LaterBranch (kind socket : String) : Prop := kind = "controls_ifelse" ∧ ∃ n, socket = "DO" ++ Text.ofNat (n + 1)

theorem standardSocketKind_laterBranch {kind socket : String} (h : LaterBranch kind socket) :
    standardSocketKind kind socket = .value := by
  obtain ⟨rfl, n, rfl⟩ := h
  have hno : ¬ (["DO0", "ELSE"].contains ("DO" ++ Text.ofNat (n + 1)) = true) := by
    rw [contains_do]
    omega
  rw [standardSocketKind_controls_ifelse, if_neg hno]

/-- What the decoder says of the sockets in the table, except of the two kinds of if: it has values
only, or it is right about each named socket. -/
def Checked (k : KindSockets) : Prop :=
  (k.kind = "controls_if" ∨ k.kind = "controls_ifelse") ∧ k.values = [.numbered "IF"] ∧
    k.statements = [.numbered "DO", .named "ELSE"] ∨
  (Kind.Registry.standard.lookup? k.kind = none ∧ Kind.withStatements.lookup k.kind = none ∧
    k.kind ∈ Kind.valuesOnly) ∧ k.statements = [] ∨
  (∀ name ∈ k.values, name.name?.map (standardSocketKind k.kind) = some .value) ∧
    ∀ name ∈ k.statements, name.name?.map (standardSocketKind k.kind) = some .statement

instance (k : KindSockets) : Decidable (Checked k) := by
  unfold Checked
  infer_instance

theorem checked_standard : ∀ k ∈ KindSockets.standard, Checked k := by
  decide +kernel

theorem standardSocketKind_of_valuesOnly {kind : String} (hcustom : Kind.Registry.standard.lookup? kind = none)
    (hmixed : Kind.withStatements.lookup kind = none) (hvalues : kind ∈ Kind.valuesOnly)
    (socket : String) : standardSocketKind kind socket = .value := by
  simp [socketKind, Kind.Registry.classify, Kind.standardStatement?, hcustom, hmixed, hvalues]

/-- The decoder is right about every socket in the table that is no later branch. -/
theorem standardSocketKind_of_fits {k : KindSockets} (hk : k ∈ KindSockets.standard) {how : SocketKind}
    {name : SocketName} (hname : name ∈ k.names how) {socket : String} (hfits : name.Fits socket)
    (hlater : ¬ LaterBranch k.kind socket) : standardSocketKind k.kind socket = how := by
  rcases checked_standard k hk with ⟨hkind, hvalues, hstatements⟩ | ⟨⟨hcustom, hmixed, honly⟩, hstatements⟩ | h
  · cases how with
    | value =>
      rw [KindSockets.names, hvalues, List.mem_singleton] at hname
      subst hname
      obtain ⟨n, rfl⟩ := hfits
      rcases hkind with hkind | hkind
      · rw [hkind, standardSocketKind_controls_if, isStatementName_if]; rfl
      · rw [hkind, standardSocketKind_controls_ifelse, contains_if]; rfl
    | statement =>
      rw [KindSockets.names, hstatements, List.mem_pair] at hname
      rcases hname with rfl | rfl
      · obtain ⟨n, rfl⟩ := hfits
        rcases hkind with hkind | hkind
        · rw [hkind, standardSocketKind_controls_if, isStatementName_do]; rfl
        · cases n with
          | zero => rw [hkind]; rfl
          | succ n => exact absurd ⟨hkind, n, rfl⟩ hlater
      · rw [SocketName.fits_named] at hfits
        rcases hkind with hkind | hkind
        · rw [hkind, hfits]; rfl
        · rw [hkind, hfits]; rfl
  · cases how with
    | value => exact standardSocketKind_of_valuesOnly hcustom hmixed honly socket
    | statement =>
      rw [KindSockets.names, hstatements] at hname
      cases hname
  · have hnamed : name.name?.map (standardSocketKind k.kind) = some how := by
      cases how with
      | value => exact h.1 name hname
      | statement => exact h.2 name hname
    obtain ⟨name', hname', hkind⟩ := Option.map_eq_some_iff.1 hnamed
    rw [SocketName.name?_of_fits hname' hfits, hkind]

/-! ## Agreement -/

theorem standardSocketKind_of_readsAs {how : SocketKind} {kind socket : String} (h : ReadsAs how kind socket)
    (hlater : ¬ LaterBranch kind socket) : standardSocketKind kind socket = how := by
  obtain ⟨k, hk, rfl, name, hname, hfits⟩ := fits_of_readsAs h
  exact standardSocketKind_of_fits hk hname hfits hlater

theorem readsAs_numbered (n : Nat) :
    (∀ kind ∈ ["controls_if", "controls_ifelse"],
      ReadsAs .value kind ("IF" ++ Text.ofNat n) ∧ ReadsAs .statement kind ("DO" ++ Text.ofNat n)) ∧
    (∀ kind ∈ ["lists_create_with", "text_join"], ReadsAs .value kind ("ADD" ++ Text.ofNat n)) ∧
    ∀ kind ∈ ["procedures_callreturn", "procedures_callnoreturn"], ReadsAs .value kind ("ARG" ++ Text.ofNat n) := by
  simp only [List.forall_mem_cons, List.not_mem_nil, false_imp_iff, implies_true, and_true]
  exact ⟨⟨⟨readsAs_if rfl n, readsAs_do rfl n⟩, readsAs_if rfl n, readsAs_do rfl n⟩,
    ⟨readsAs_item n, readsAs_joined n⟩, readsAs_argument n, readsAs_statementArgument n⟩

/-- For a socket that the emitter of a standard kind can read, the decoder says how it is read,
except for the branches of `controls_ifelse` behind the first: they are read for statements and taken
for values. The decoder makes each socket what `standardSocketKind` says, and behind the names that
take a number every number is read. -/
theorem decoder_agrees_with_emitters {kind socket : String} (hread : ∃ how, ReadsAs how kind socket) :
    ((∀ how, standardSocketKind kind socket = how ↔ ReadsAs how kind socket) ↔
      ¬ (kind = "controls_ifelse" ∧ ∃ n, socket = "DO" ++ Text.ofNat (n + 1))) ∧
    (∀ document ws, Workspace.decode (some Kind.Registry.standard.classify) document = .ok ws →
      ∀ b ∈ ws.blocks, b.head.kind = kind → ∀ s ∈ b.sockets, s.name = socket → s.kind = standardSocketKind kind socket) ∧
    ∀ n,
      (∀ kind ∈ ["controls_if", "controls_ifelse"],
        ReadsAs .value kind ("IF" ++ Text.ofNat n) ∧ ReadsAs .statement kind ("DO" ++ Text.ofNat n)) ∧
      (∀ kind ∈ ["lists_create_with", "text_join"], ReadsAs .value kind ("ADD" ++ Text.ofNat n)) ∧
      ∀ kind ∈ ["procedures_callreturn", "procedures_callnoreturn"], ReadsAs .value kind ("ARG" ++ Text.ofNat n) := by
  obtain ⟨how, hhow⟩ := hread
  -- a later branch is read for statements, so agreement there would make it a statement socket
  refine ⟨⟨?_, fun hlater how' => ⟨?_, fun h => standardSocketKind_of_readsAs h hlater⟩⟩, ?_, readsAs_numbered⟩
  · rintro hall ⟨rfl, n, rfl⟩
    have hstatements := ((readsAs_numbered (n + 1)).1 "controls_ifelse" (by simp)).2
    have hkind := (hall .statement).2 hstatements
    rw [standardSocketKind_laterBranch ⟨rfl, n, rfl⟩] at hkind
    cases hkind
  · rintro rfl
    rw [standardSocketKind_of_readsAs hhow hlater]
    exact hhow
  · rintro document ws hdecode b hb rfl s hs rfl
    exact (Workspace.wired_of_decode hdecode b hb).kind s hs

theorem decoder_agrees_on_branch :
    (∃ how, ReadsAs how "controls_if" "DO7") ∧
      ∀ how, standardSocketKind "controls_if" "DO7" = how ↔ ReadsAs how "controls_if" "DO7" := by
  have hread : ∃ how, ReadsAs how "controls_if" "DO7" :=
    ⟨.statement, ((readsAs_numbered 7).1 "controls_if" (by simp)).2⟩
  have hkind : "controls_if" ≠ "controls_ifelse" := by decide
  exact ⟨hread, (decoder_agrees_with_emitters hread).1.2 fun h => hkind h.1⟩

/-- The second branch of `controls_ifelse` is a value to the decoder and statements to the emitter. -/
theorem decoder_disagrees_on_second_branch :
    ¬ ∀ kind socket, (∃ how, ReadsAs how kind socket) →
      ∀ how, standardSocketKind kind socket = how ↔ ReadsAs how kind socket := by
  intro hall
  have hread := ((readsAs_numbered 1).1 "controls_ifelse" (by simp)).2
  have hkind := (hall "controls_ifelse" "DO1" ⟨_, hread⟩ .statement).2 hread
  have hvalue : standardSocketKind "controls_ifelse" "DO1" = .value := by decide
  rw [hvalue] at hkind
  cases hkind

end Blockwright
