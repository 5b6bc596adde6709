import Blockwright.Proofs.Containment.Program
import Blockwright.Proofs.Emit.Outcomes
import Blockwright.Proofs.Sockets.Kinds
import Blockwright.Proofs.Workspace.Decoded
/-!
# Failures name a block

When a pass over a workspace that was read from a document fails, the failure names one block of
the workspace that explains it. A block claims the failures of its own emitter and leaves those
that a block inside has claimed; so by induction on the tree every failure of a block is claimed.
-/

namespace Blockwright

open Emit

/-- A failure for this cause is explained by a block of the workspace. -/
structure Workspace.Blames (ws : Workspace) (cause : Cause) (b : Block) : Prop where
  mem : b ∈ ws.blocks
  enabled : b.head.disabled = false ∨ cause = .expectedValue
  /-- An option that is not handled is the value of a field of the block. -/
  option : ∀ kind field option, cause = .unhandledOption kind field option →
    kind = b.head.kind ∧ option = b.head.written field
  /-- A kind that is unknown is the kind of the block, and it has no emitter. -/
  unknown : ∀ kind, cause = .unknownKind kind → kind = b.head.kind ∧ standard.lookup kind = none
  /-- A block that is refused in its place is plugged into a socket or chained behind a block. -/
  held : cause = .expectedValue ∨ cause = .expectedStatement → ∃ holder ∈ ws.blocks, holder.Holds b

/-- The failure names a block that explains it. -/
def Workspace.Claims (ws : Workspace) (f : Failure) : Prop := ∃ b, f.block = some b.name ∧ ws.Blames f.cause b

/-- A failure inside a block: it is explained by the block and not claimed yet, or claimed by a block
inside. -/
def Workspace.ArisesIn (ws : Workspace) (b : Block) (f : Failure) : Prop :=
  f.block = none ∧ ws.Blames f.cause b ∨ ws.Claims f

/-- What a pass has on record by itself is a helper with two bodies. -/
def Pass.Plain (p : Pass) : Prop := ∀ cause, p.failure = some cause → ∃ name, cause = .helperMismatch name

namespace Pass

variable {settings : PassSettings} {p : Pass}

theorem Plain.serve (h : p.Plain) (c : Call) : (p.serve settings c).2.Plain := by
  cases c with
  | provide desired body =>
    cases hfound : p.helpers.lookup desired with
    | some helper =>
      rw [serve_known body hfound]
      intro cause hcause
      rcases Option.or_eq_some_iff.1 hcause with hcause | ⟨-, hcause⟩
      · exact h cause hcause
      · split at hcause
        · exact ⟨_, (Option.some.inj hcause).symm⟩
        · cases hcause
    | none =>
      rw [serve_provide, hfound]
      exact h
  | name key category => exact h
  | distinct seed category => exact h
  | reserve words => exact h
  | define key code => exact h

theorem Plain.perform (h : p.Plain) (d : Demand) : (d.perform.run settings p).2.Plain := by
  cases d with
  | call c =>
    rw [Demand.perform, run_perform]
    exact h.serve c
  | setVariables idNames => exact h

theorem Plain.cause (h : p.Plain) {cause : Cause} (hcause : p.failure? = some cause) :
    (∃ name, cause = .helperMismatch name) ∨ ∃ e, cause = .namesExhausted e := by
  rcases Option.or_eq_some_iff.1 hcause with hcause | ⟨-, hcause⟩
  · exact .inl (h cause hcause)
  · obtain ⟨e, -, rfl⟩ := Option.map_eq_some_iff.1 hcause
    exact .inr ⟨e, rfl⟩

end Pass

namespace Workspace

variable {ws : Workspace} {b : Block}

theorem mem_blocks_of_holds {c : Block} (hb : b ∈ ws.blocks) (h : b.Holds c) : c ∈ ws.blocks := by
  obtain ⟨root, hroot, hb⟩ := List.mem_flatMap.1 hb
  exact List.mem_flatMap.2 ⟨root, hroot, Block.mem_blocks_trans hb (h.mem_blocks c.mem_blocks_self)⟩

/-- An enabled block explains every failure that is about itself only. -/
theorem blames_self (hb : b ∈ ws.blocks) (henabled : b.head.disabled = false) {cause : Cause}
    (hvalue : cause ≠ .expectedValue) (hstatement : cause ≠ .expectedStatement)
    (hoption : ∀ kind field option, cause = .unhandledOption kind field option →
      kind = b.head.kind ∧ option = b.head.written field)
    (hunknown : ∀ kind, cause = .unknownKind kind → kind = b.head.kind ∧ standard.lookup kind = none) :
    ws.Blames cause b where
  mem := hb
  enabled := .inl henabled
  option := hoption
  unknown := hunknown
  held h := h.elim (absurd · hvalue) (absurd · hstatement)

theorem blames_expectedValue {c : Block} (hb : b ∈ ws.blocks) (hc : b.Holds c) : ws.Blames .expectedValue c where
  mem := mem_blocks_of_holds hb hc
  enabled := .inr rfl
  option := by rintro kind field option ⟨⟩
  unknown := by rintro kind ⟨⟩
  held _ := ⟨b, hb, hc⟩

theorem blames_expectedStatement {c : Block} (hb : b ∈ ws.blocks) (hc : b.Holds c) (henabled : c.head.disabled = false) :
    ws.Blames .expectedStatement c where
  mem := mem_blocks_of_holds hb hc
  enabled := .inl henabled
  option := by rintro kind field option ⟨⟩
  unknown := by rintro kind ⟨⟩
  held _ := ⟨b, hb, hc⟩

/-! ## Blocks -/

/-- Only an enabled block that hangs from nothing or from a value socket gives a value. -/
def GivesValue (b : Block) (r : Result) : Prop :=
  ∀ code order, r = .value code order → b.head.disabled = false ∧ (b.head.link = .value ∨ b.head.link = .top)

/-- Emitting the block fails only with failures that a block claims. -/
def Claimed (ws : Workspace) (settings : PassSettings) (b : Block) : Prop :=
  ∀ thisOnly, Outcome settings Pass.Plain (GivesValue b) ws.Claims (b.emit standard thisOnly)

variable {settings : PassSettings}

theorem holds_of_plug {socket : String} {plug : Plug} (hp : (b.site standard).plug? socket = some plug) :
    b.Holds plug.block ∧ plug.emit = plug.block.emit standard false := by
  obtain ⟨s, hs, -, hplugged, hemit⟩ := Block.plug?_site hp
  exact ⟨.inl ⟨s, hs, hplugged⟩, hemit⟩

theorem holds_of_next {plug : Plug} (hp : (b.site standard).next = some plug) :
    b.Holds plug.block ∧ plug.emit = plug.block.emit standard false := by
  obtain ⟨hchained, hemit⟩ := Block.next_site hp
  exact ⟨.inr hchained, hemit⟩

theorem outcome_nextCode (hb : b ∈ ws.blocks) (hheld : ∀ c, b.Holds c → ws.Claimed settings c) :
    Outcome settings Pass.Plain (fun _ => True) ws.Claims (b.site standard).nextCode := by
  refine .nextCode fun plug hp => ?_
  obtain ⟨hc, hemit⟩ := holds_of_next hp
  rw [hemit]
  refine (hheld _ hc false).mono (fun r hr code order he => ?_) fun _ h => h
  exact ⟨_, rfl, blames_expectedStatement hb hc (hr code order he).1⟩

/-- Where the emitter of a block leads, if what the block holds is claimed. -/
theorem bounds_site (hb : b ∈ ws.blocks) (henabled : b.head.disabled = false)
    (hheld : ∀ c, b.Holds c → ws.Claimed settings c) (values statements : List SocketName) :
    Bounds settings Pass.Plain (ws.ArisesIn b) (b.site standard) (.standard (b.site standard) values statements) := by
  have hclaimed : ∀ c, b.Holds c →
      Outcome settings Pass.Plain (GivesValue c) (ws.ArisesIn b) (c.emit standard false) :=
    fun c hc => (hheld c hc false).mono (fun _ h => h) fun _ h => .inr h
  constructor
  case demand => exact fun d _ p hp => hp.perform d
  case fail =>
    rintro f ⟨cause, rfl, ⟨field, rfl⟩ | ⟨literal, rfl⟩⟩
    · refine .inl ⟨rfl, blames_self hb henabled nofun nofun ?_ nofun⟩
      rintro kind field option ⟨⟩
      exact ⟨rfl, rfl⟩
    · exact .inl ⟨rfl, blames_self hb henabled nofun nofun nofun nofun⟩
  case value =>
    intro socket outer _
    refine .value fun plug hp => ?_
    obtain ⟨hc, hemit⟩ := holds_of_plug hp
    rw [hemit]
    refine (hclaimed _ hc).mono (fun r _ code _ => ?_) fun _ h => h
    exact .inr ⟨_, rfl, blames_expectedValue hb hc⟩
  case statements =>
    intro socket _
    refine .statements fun plug hp => ?_
    obtain ⟨hc, hemit⟩ := holds_of_plug hp
    rw [hemit]
    refine (hclaimed _ hc).mono (fun r hr code order he => ?_) fun _ h => h
    exact .inr ⟨_, rfl, blames_expectedStatement hb hc (hr code order he).1⟩
  case nextCode => exact (outcome_nextCode hb hheld).mono (fun _ h => h) fun _ h => .inr h
  case plugged =>
    intro socket plug hp
    obtain ⟨hc, hemit⟩ := holds_of_plug hp
    rw [hemit]
    exact (hclaimed _ hc).mono (fun _ _ => trivial) fun _ h => h
  case chained =>
    intro plug hp
    obtain ⟨hc, hemit⟩ := holds_of_next hp
    rw [hemit]
    exact (hclaimed _ hc).mono (fun _ _ => trivial) fun _ h => h

/-- A block claims what its own emitter fails with and what its pass has on record. -/
theorem outcome_site (hb : b ∈ ws.blocks) (henabled : b.head.disabled = false)
    (hplace : b.head.link = .top ∨ ∃ holder ∈ ws.blocks, holder.Holds b)
    (hheld : ∀ c, b.Holds c → ws.Claimed settings c) (thisOnly : Bool) :
    Outcome settings Pass.Plain (GivesValue b) ws.Claims ((b.site standard).emit standard thisOnly) := by
  have hdress : ∀ code, Outcome settings Pass.Plain (fun _ => True) ws.Claims
      ((b.site standard).dress code thisOnly) := fun code => .dress (outcome_nextCode hb hheld)
  have hclaim : ∀ f, ws.ArisesIn b f → ws.Claims (f.inBlock (b.site standard).block.name) := by
    rintro f (⟨hnone, hblames⟩ | ⟨c, hc, hblames⟩)
    · exact ⟨b, by rw [Failure.inBlock, hnone]; rfl, hblames⟩
    · exact ⟨c, by rw [Failure.inBlock, hc]; rfl, hblames⟩
  unfold Site.emit
  refine Outcome.bind (Q := fun _ => True) (.inBlock ?_ hclaim) fun r _ => ?_
  · split
    · next emitter hfound =>
      obtain ⟨k, -, -, hreads⟩ := reads_of_lookup hfound
      refine ((hreads _).within.outcome (bounds_site hb henabled hheld _ _)).bind fun r _ => ?_
      refine (Outcome.check fun p hp cause hcause => ?_).bind fun _ _ => .pure trivial
      rcases hp.cause hcause with ⟨name, rfl⟩ | ⟨e, rfl⟩
      · exact .inl ⟨rfl, blames_self hb henabled nofun nofun nofun nofun⟩
      · exact .inl ⟨rfl, blames_self hb henabled nofun nofun nofun nofun⟩
    · next hunknown =>
      refine .fail (.inl ⟨rfl, blames_self hb henabled nofun nofun nofun ?_⟩)
      rintro kind ⟨⟩
      exact ⟨rfl, Option.eq_none_iff_forall_ne_some.2 hunknown⟩
  · cases r with
    | handled => exact .pure (by rintro code order ⟨⟩)
    | statement code => exact (hdress code).bind fun _ _ => .pure (by rintro code order ⟨⟩)
    | value code order =>
      dsimp only
      split
      · next hlink =>
        -- a value that is refused hangs from a statement link, so something holds the block
        simp only [Bool.and_eq_true, bne_iff_ne, ne_eq] at hlink
        obtain ⟨holder, hholder, hholds⟩ := hplace.resolve_left hlink.2
        exact .failIn ⟨b, rfl, blames_expectedStatement hholder hholds henabled⟩
      · next hlink =>
        refine (hdress code).bind fun _ _ => .pure fun _ _ _ => ⟨henabled, ?_⟩
        by_contra hno
        rw [not_or] at hno
        exact hlink (by simpa [Site.head, Block.site] using hno)

/-- Every block of the workspace claims its failures. -/
theorem claimed_block {classify : Option Classifier} (hwired : ∀ b ∈ ws.blocks, b.Wired classify) (b : Block) :
    b ∈ ws.blocks → (b.head.link = .top ∨ ∃ holder ∈ ws.blocks, holder.Holds b) → ws.Claimed settings b := by
  induction b using Block.inductionOn with
  | h b ih =>
    intro hb hplace thisOnly
    have hheld : ∀ c, b.Holds c → ws.Claimed settings c :=
      fun c hc => ih c hc (mem_blocks_of_holds hb hc) (.inr ⟨b, hb, hc⟩)
    rw [Block.emit_eq]
    split
    · split
      · exact .pure (by rintro code order ⟨⟩)
      · cases hnext : b.next with
        | none => exact .pure (by rintro code order ⟨⟩)
        | some c =>
          rw [Block.emitNext]
          refine (hheld c (.inr hnext) false).mono (fun r hr code order he => ?_) fun _ h => h
          -- what is chained behind a block never gives a value
          obtain ⟨-, hlink⟩ := hr code order he
          rw [(hwired b hb).next c hnext] at hlink
          rcases hlink with hlink | hlink <;> cases hlink
    · next henabled => exact outcome_site hb (by simpa using henabled) hplace hheld thisOnly

/-! ## Programs -/

theorem outcome_emitTop (top : List Block) (htop : ∀ b ∈ top, ws.Claimed settings b) :
    Outcome settings Pass.Plain (fun _ => True) ws.Claims (Generator.emitTop standard top) := by
  induction top with
  | nil => exact .pure trivial
  | cons b rest ih =>
    refine (htop b List.mem_cons_self false).bind fun r _ => ?_
    exact (ih fun c hc => htop c (List.mem_cons_of_mem _ hc)).bind fun lines _ => .pure trivial

end Workspace

namespace Generator

theorem plain_start {g : Generator} {ws : Workspace} {p : Pass} (h : g.start ws = .ok p) : p.Plain := by
  intro cause hcause
  have hclean := (Pass.failure?_eq_none.1 (contained_start h).2).1
  rw [hclean] at hcause
  cases hcause

/-- A pass over a workspace that was read from a document, with the standard emitters, fails behind
its start only with a failure that names one block of the workspace and is explained by it. -/
theorem generate_blames_block {classify : Option Classifier} {document : Bytes} {ws : Workspace} {g : Generator}
    {p : Pass} {e : GenerateError} (hdecode : Workspace.decode classify document = .ok ws)
    (hemitters : g.emitters = standard) (hstart : g.start ws = .ok p) (h : g.generate ws = .error e) :
    ∃ cause b, e = .failed { cause, block := some b.name } ∧ ws.Blames cause b := by
  have htop : ∀ b ∈ ws.top, ws.Claimed (g.settings ws) b := by
    intro b hb
    have hmem : b ∈ ws.blocks := List.mem_flatMap.2 ⟨b, hb, b.mem_blocks_self⟩
    exact Workspace.claimed_block (Workspace.wired_of_decode hdecode) b hmem
      (.inl (Workspace.hung_of_decode hdecode b hb).1)
  have hrun := (Workspace.outcome_emitTop ws.top htop p (plain_start hstart)).2
  unfold generate at h
  rw [hstart, hemitters] at h
  dsimp only [bind, Except.bind] at h
  rcases hresult : (emitTop standard ws.top).run (g.settings ws) p with ⟨f | lines, p'⟩
  · rw [hresult] at h hrun
    obtain ⟨b, hblock, hblames⟩ := hrun
    obtain ⟨cause, block⟩ := f
    refine ⟨cause, b, ?_, hblames⟩
    dsimp only at hblock
    rw [← Except.error.inj h, hblock]
  · rw [hresult] at h
    cases h

/-- A document of a block of an unknown kind inside another block. -/
def strayDocument : Bytes := [
  0x7B, 0x22, 0x62, 0x6C, 0x6F, 0x63, 0x6B, 0x73, 0x22, 0x3A, 0x7B, 0x22, 0x62, 0x6C, 0x6F, 0x63, 0x6B, 0x73, 0x22,
  0x3A, 0x5B, 0x7B, 0x22, 0x74, 0x79, 0x70, 0x65, 0x22, 0x3A, 0x22, 0x74, 0x65, 0x78, 0x74, 0x5F, 0x70, 0x72, 0x69,
  0x6E, 0x74, 0x22, 0x2C, 0x22, 0x69, 0x6E, 0x70, 0x75, 0x74, 0x73, 0x22, 0x3A, 0x7B, 0x22, 0x54, 0x45, 0x58, 0x54,
  0x22, 0x3A, 0x7B, 0x22, 0x62, 0x6C, 0x6F, 0x63, 0x6B, 0x22, 0x3A, 0x7B, 0x22, 0x74, 0x79, 0x70, 0x65, 0x22, 0x3A,
  0x22, 0x73, 0x74, 0x72, 0x61, 0x79, 0x22, 0x2C, 0x22, 0x69, 0x64, 0x22, 0x3A, 0x22, 0x73, 0x22, 0x7D, 0x7D, 0x7D,
  0x7D, 0x5D, 0x7D, 0x7D]

/-- The block of the unknown kind. -/
def stray : Block := ⟨{ kind := "stray", id := "s", link := .value }, [], none⟩

/-- The workspace of the document. -/
def strayWorkspace : Workspace := { top := [⟨{ kind := "text_print" }, [⟨"TEXT", .value, some stray⟩], none⟩] }

theorem generate_stray : generate {} strayWorkspace = .error (.failed ⟨.unknownKind "stray", some ⟨"s", "stray"⟩⟩) := by
  have hkeys : declaredKeys strayWorkspace = [] := rfl
  have hrun : ∀ p, (emitTop standard strayWorkspace.top).run (settings {} strayWorkspace) p =
      (.error ⟨.unknownKind "stray", some ⟨"s", "stray"⟩⟩, p) := fun _ => rfl
  unfold generate
  rw [start_of_no_keys hkeys]
  dsimp only [bind, Except.bind]
  rw [hrun]

/-- The block inside is the one that is named. -/
theorem generate_blames_stray : Workspace.decode none strayDocument = .ok strayWorkspace ∧
    generate {} strayWorkspace = .error (.failed ⟨.unknownKind "stray", some ⟨"s", "stray"⟩⟩) ∧
    ∃ cause b, GenerateError.failed ⟨.unknownKind "stray", some ⟨"s", "stray"⟩⟩ = .failed ⟨cause, some b.name⟩ ∧
      strayWorkspace.Blames cause b := by
  have hdecode : Workspace.decode none strayDocument = .ok strayWorkspace := by rfl
  have hstart : start {} strayWorkspace = .ok { names := startNames {} strayWorkspace } := start_of_no_keys rfl
  exact ⟨hdecode, generate_stray, generate_blames_block hdecode rfl hstart generate_stray⟩

end Generator
end Blockwright
