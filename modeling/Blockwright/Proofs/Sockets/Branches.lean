import Mathlib.Data.List.Nodup
import Mathlib.Data.List.Perm.Subperm
import Blockwright.Emit.Logic
import Blockwright.Generator
import Blockwright.Proofs.Number.Wholes
import Blockwright.Proofs.Sockets.Fillings
/-!
# The branches of an if

An if block has a branch of every number up to which each number is zero, is counted by the mutator,
or has a socket for its condition. The branches are written in order, each with what fills its two
sockets, and the else branch comes last. A statement whose number is behind a gap is not written.
-/

namespace Blockwright

open Emit

variable {emitters : Emitters} {settings : PassSettings} {p q : Pass} {b : Block}

/-- Up to a number, every branch is the first one, is counted by the mutator or has a socket for its
condition. -/
def Block.Branches (b : Block) (n : Nat) : Prop :=
  ∀ m ≤ n, m = 0 ∨ (m : Int) ≤ b.head.extra.elseIfCount ∨ (b.socket? ("IF" ++ Text.ofNat m)).isSome = true

/-! ## How many branches there are -/

/-- Some number is not among those that sockets have: there are fewer sockets than numbers. -/
theorem exists_missing_socket (b : Block) (start : String) (base : Nat) :
    ∃ i < b.sockets.length + 1, b.socket? (start ++ Text.ofNat (base + i)) = none := by
  by_contra hall
  have hfound : ∀ i < b.sockets.length + 1, start ++ Text.ofNat (base + i) ∈ b.sockets.map (·.name) := by
    intro i hi
    cases hs : b.socket? (start ++ Text.ofNat (base + i)) with
    | none => exact absurd ⟨i, hi, hs⟩ hall
    | some s =>
      have hname : s.name = start ++ Text.ofNat (base + i) := by simpa using List.find?_some hs
      rw [← hname]
      exact List.mem_map_of_mem (List.mem_of_find?_eq_some hs)
  have hnodup : ((List.range (b.sockets.length + 1)).map fun i => start ++ Text.ofNat (base + i)).Nodup := by
    refine List.Nodup.map (fun i j hij => ?_) List.nodup_range
    have hnumbers : Text.ofNat (base + i) = Text.ofNat (base + j) := by
      have hlist := congrArg String.toList hij
      simp only [String.toList_append] at hlist
      exact String.toList_injective (List.append_cancel_left hlist)
    have hsum := Text.ofNat_injective hnumbers
    omega
  have hle := (List.subperm_of_subset hnodup fun name hname => by
    obtain ⟨i, hi, rfl⟩ := List.mem_map.1 hname
    exact hfound i (List.mem_range.1 hi)).length_le
  rw [List.length_map, List.length_map, List.length_range] at hle
  omega

/-- The branches are those up to the first gap. -/
theorem lt_branchCount_iff {n : Nat} : n < branchCount (b.site emitters) ↔ b.Branches n := by
  have hbase : ∀ m, m < max 1 (b.head.extra.elseIfCount + 1).toNat ↔ m = 0 ∨ (m : Int) ≤ b.head.extra.elseIfCount := by
    omega
  have hcount : branchCount (b.site emitters) = max 1 (b.head.extra.elseIfCount + 1).toNat +
      ((List.range (b.sockets.length + 1)).find? fun i =>
        !(b.socket? ("IF" ++ Text.ofNat (max 1 (b.head.extra.elseIfCount + 1).toNat + i))).isSome).getD 0 := rfl
  rw [hcount]
  generalize max 1 (b.head.extra.elseIfCount + 1).toNat = base at hbase ⊢
  obtain ⟨i, hi, hmissing⟩ := exists_missing_socket b "IF" base
  cases hfound : (List.range (b.sockets.length + 1)).find? fun i => !(b.socket? ("IF" ++ Text.ofNat (base + i))).isSome with
  | none =>
    have hsome := List.find?_eq_none.1 hfound i (List.mem_range.2 hi)
    simp [hmissing] at hsome
  | some gap =>
    obtain ⟨hgap, -, hbefore⟩ := List.find?_range_eq_some.1 hfound
    rw [Option.getD_some]
    constructor
    · intro hn m hm
      by_cases hm' : m < base
      · exact ((hbase m).1 hm').imp_right .inl
      · have hsocket := hbefore (m - base) (by omega)
        rw [Nat.add_sub_cancel' (by omega)] at hsocket
        exact .inr (.inr (by simpa using hsocket))
    · intro h
      by_contra hn
      have hlt : ¬ base + gap < base := by omega
      rcases h (base + gap) (by omega) with hfirst | hcounted | hsocket
      · exact hlt ((hbase _).2 (.inl hfirst))
      · exact hlt ((hbase _).2 (.inr hcounted))
      · rw [hsocket] at hgap
        cases hgap

/-! ## The branches -/

/-- What fills the two sockets of one branch after the other. -/
abbrev Branch := Option (String × Order) × String

/-- The code of one branch. -/
def Branch.code (settings : PassSettings) (branch : Branch) : String :=
  "if (" ++ inPlace Order.none "false" branch.1 ++ ") \x7b\n" ++ deeper settings branch.2 ++ "\x7d"

/-- The code of the branches of an if block, with the statements of its else branch if it has one. -/
def ifCode (settings : PassSettings) (branches : List Branch) (last : Option String) : String :=
  Text.joinWith " else " (branches.map (Branch.code settings)) ++
    match last with
    | none => "\n"
    | some body => " else \x7b\n" ++ deeper settings body ++ "\x7d\n"

/-- The emission of a branch reads the condition and then the statements of its number. -/
def Block.Branching (emitters : Emitters) (settings : PassSettings) (b : Block) (n : Nat) (p : Pass)
    (branch : Branch) (q : Pass) : Prop :=
  ∃ p', b.Filling emitters settings ("IF" ++ Text.ofNat n) p branch.1 p' ∧
    b.Body emitters settings ("DO" ++ Text.ofNat n) p' branch.2 q

theorem exists_branch {n : Nat} {code : String} (h : (ifBranch (b.site emitters) n).run settings p = (.ok code, q)) :
    ∃ branch : Branch, b.Branching emitters settings n p branch q ∧ code = branch.code settings := by
  obtain ⟨condition, p₁, hcondition, hrest⟩ := Emit.run_bind_eq_ok_iff.1 h
  obtain ⟨body, p₂, hbody, hpure⟩ := Emit.run_bind_eq_ok_iff.1 hrest
  obtain ⟨rfl, rfl⟩ := Emit.run_pure_eq_ok_iff.1 hpure
  obtain ⟨filling, hfilling, rfl⟩ := Block.exists_filling hcondition
  obtain ⟨statements, hstatements, rfl⟩ := Block.exists_body hbody
  exact ⟨(filling, statements), ⟨p₁, hfilling, hstatements⟩, rfl⟩

theorem exists_branches {ns : List Nat} {codes : List String}
    (h : Threaded (fun n p code q => (ifBranch (b.site emitters) n).run settings p = (.ok code, q)) ns p codes q) :
    ∃ branches : List Branch, Threaded (b.Branching emitters settings) ns p branches q ∧
      codes = branches.map (Branch.code settings) := by
  induction h with
  | nil => exact ⟨[], .nil, rfl⟩
  | cons head tail ih =>
    obtain ⟨branch, hbranch, rfl⟩ := exists_branch head
    obtain ⟨branches, hbranches, rfl⟩ := ih
    exact ⟨branch :: branches, .cons hbranch hbranches, rfl⟩

/-- If the emission of an if block succeeds, its branches are written in the order of their numbers
and joined by `else`, each with the code of its condition, or false without one, and its statements one
level deeper. The else branch comes last; a block plugged into its socket is never lost. A number has a
branch if and only if every number up to it is zero, is counted by the mutator or has a socket for its
condition, so that what is plugged in behind a gap is not written. -/
theorem emit_branches (hkind : b.head.kind = "controls_if" ∨ b.head.kind = "controls_ifelse")
    (henabled : b.head.disabled = false) {thisOnly : Bool} {r : Result}
    (h : (b.emit standard thisOnly).run settings p = (.ok r, q)) :
    ∃ (branches : List Branch) (last : Option String) (p₁ p₂ : Pass),
      Threaded (b.Branching standard settings) (List.range branches.length) p branches p₁ ∧
      (last = none ∧ p₂ = p₁ ∨ ∃ body, last = some body ∧ b.Body standard settings "ELSE" p₁ body p₂) ∧
      ((b.site standard).completed thisOnly (.statement (ifCode settings branches last))).run settings p₂ = (.ok r, q) ∧
      (∀ n, n < branches.length ↔ b.Branches n) ∧
      (b.plugged? "ELSE" ≠ none → last ≠ none) := by
  rw [Block.emit_of_enabled henabled] at h
  obtain ⟨emitter, own, p₂, hfound, hown, hr⟩ := Site.exists_of_run_emit_completed h
  have hemitter : emitter = controlsIf := by
    have hhead : (b.site standard).head.kind = b.head.kind := rfl
    rw [hhead] at hfound
    rcases hkind with hkind | hkind <;>
    · rw [hkind] at hfound
      exact (Option.some.inj hfound).symm
  subst hemitter
  obtain ⟨codes, p₁, hcodes, hlast⟩ := Emit.run_bind_eq_ok_iff.1 hown
  obtain ⟨branches, hbranches, rfl⟩ := exists_branches (run_mapM_eq_ok_iff.1 hcodes)
  have hlength : branches.length = branchCount (b.site standard) := by rw [hbranches.length, List.length_range]
  rw [← hlength] at hbranches
  have hreached : ∀ n, n < branches.length ↔ b.Branches n := fun n => by rw [hlength, lt_branchCount_iff]
  dsimp only at hlast
  split at hlast
  · obtain ⟨code, p₃, hread, hpure⟩ := Emit.run_bind_eq_ok_iff.1 hlast
    obtain ⟨rfl, rfl⟩ := Emit.run_pure_eq_ok_iff.1 hpure
    obtain ⟨body, hbody, rfl⟩ := Block.exists_body hread
    refine ⟨branches, some body, p₁, _, hbranches, .inr ⟨body, rfl, hbody⟩, ?_, hreached, fun _ => by simp⟩
    have hcode : ifCode settings branches (some body) = Text.joinWith " else " (branches.map (Branch.code settings)) ++
        " else \x7b\n" ++ deeper settings body ++ "\x7d\n" := by
      simp only [ifCode, String.append_assoc]
    rw [hcode]
    exact hr
  · rename_i helse
    obtain ⟨rfl, rfl⟩ := Emit.run_pure_eq_ok_iff.1 hlast
    refine ⟨branches, none, _, _, hbranches, .inl ⟨rfl, rfl⟩, hr, hreached, fun hplugged => ?_⟩
    cases hsocket : b.socket? "ELSE" with
    | none => exact absurd (by rw [Block.plugged?, hsocket]; rfl) hplugged
    | some s =>
      have hhas : (b.site standard).hasSocket "ELSE" = true := by
        rw [Site.hasSocket]
        exact Option.isSome_iff_exists.2 ⟨s, hsocket⟩
      exact absurd (by simp [hasElse, hhas]) helse

/-- An alert. -/
def alert : Block := ⟨{ kind := "text_print", link := .statement }, [], none⟩

/-- An if block with two branches, and statements behind a gap. -/
def gappedIf : Block :=
  ⟨{ kind := "controls_if" }, [⟨"IF1", .value, none⟩, ⟨"DO3", .statement, some alert⟩], none⟩

/-- The branches are those in front of the gap. -/
theorem emit_gappedIf : (gappedIf.emit standard true).run {} { names := {} } =
      (.ok (.statement "if (false) \x7b\n\x7d else if (false) \x7b\n\x7d\n"), { names := {} }) ∧
    ∃ branches : List Branch, ∀ n, n < branches.length ↔ gappedIf.Branches n := by
  have hrun : (gappedIf.emit standard true).run {} { names := {} } =
      (.ok (.statement "if (false) \x7b\n\x7d else if (false) \x7b\n\x7d\n"), { names := {} }) := by
    have hown : (controlsIf (gappedIf.site standard)).run {} { names := {} } =
        (.ok (.statement "if (false) \x7b\n\x7d else if (false) \x7b\n\x7d\n"), { names := {} }) := rfl
    rw [Block.emit_of_enabled rfl]
    exact Site.run_emit_of_statement rfl hown rfl
  obtain ⟨branches, last, p₁, p₂, -, -, -, hreached, -⟩ := emit_branches (.inl rfl) rfl hrun
  exact ⟨hrun, branches, hreached⟩

/-- An if block whose second branch has statements and no socket for its condition. -/
def conditionless : Block :=
  ⟨{ kind := "controls_if" }, [⟨"DO1", .statement, some alert⟩], none⟩

/-- The statements of the second branch are lost. -/
theorem conditionless_branch_lost : conditionless.plugged? "DO1" = some alert ∧ alert.head.disabled = false ∧
    (conditionless.emit standard true).run {} { names := {} } =
      (.ok (.statement "if (false) \x7b\n\x7d\n"), { names := {} }) := by
  refine ⟨rfl, rfl, ?_⟩
  have hown : (controlsIf (conditionless.site standard)).run {} { names := {} } =
      (.ok (.statement "if (false) \x7b\n\x7d\n"), { names := {} }) := rfl
  rw [Block.emit_of_enabled rfl]
  exact Site.run_emit_of_statement rfl hown rfl

end Blockwright
