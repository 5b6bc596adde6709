import Blockwright.Generator
import Blockwright.Proofs.Emit.Outcomes
import Blockwright.Proofs.Workspace.Trees
/-!
# The journal of an action

An action that is put together from parts has a compositional property when its parts have it, and so has
the emission of a tree of blocks when the emitters have it at every site whose plugs do. A run of an action
changes its pass by what it demands and by nothing else. `Journal` gives the demands of a run in order;
the pass at any moment is the one behind the demands made so far. Every action that a licence covers has a
journal, and so has the emission of a tree of blocks by emitters that keep to theirs.
-/

/-! ## Properties that follow the structure of actions -/

namespace Blockwright.Emit

/-- A property that the plain actions have and that the actions put together from such have too. -/
structure Compositional (P : {α : Type} → Emit α → Prop) : Prop where
  pure {α : Type} (a : α) : P (Pure.pure a)
  throw {α : Type} (f : Failure) : P (MonadExcept.throw f : Emit α)
  get : P (MonadState.get : Emit Pass)
  indent : P Emit.indent
  bind {α β : Type} {x : Emit α} {f : α → Emit β} : P x → (∀ a, P (f a)) → P (x >>= f)
  attempt {α : Type} {x : Emit α} {h : Failure → Emit α} : P x → (∀ f, P (h f)) → P (tryCatch x h)

namespace Compositional

variable {P : {α : Type} → Emit α → Prop} {emitters : Emitters} {s : Site}

theorem check (hP : Compositional P) : P check := by
  refine hP.bind hP.get fun p => ?_
  split
  · exact hP.throw _
  · exact hP.pure _

theorem value (hP : Compositional P) {socket : String} (outer : Order)
    (h : ∀ plug, s.plug? socket = some plug → P plug.emit) : P (s.value socket outer) := by
  unfold Site.value
  split
  · exact hP.pure _
  · next plug hp =>
    refine hP.bind (h plug hp) fun r => ?_
    cases r with
    | handled => exact hP.pure _
    | statement code => exact hP.throw _
    | value code order => exact hP.pure _

theorem statements (hP : Compositional P) {socket : String} (h : ∀ plug, s.plug? socket = some plug → P plug.emit) :
    P (s.statements socket) := by
  unfold Site.statements
  split
  · exact hP.pure _
  · next plug hp =>
    refine hP.bind (h plug hp) fun r => ?_
    cases r with
    | handled => exact hP.pure _
    | statement code =>
      dsimp only
      split
      · exact hP.pure _
      · exact hP.bind hP.indent fun _ => hP.pure _
    | value code order => exact hP.throw _

theorem nextCode (hP : Compositional P) (h : ∀ plug, s.next = some plug → P plug.emit) : P s.nextCode := by
  unfold Site.nextCode
  split
  · exact hP.pure _
  · next plug hp =>
    refine hP.bind (h plug hp) fun r => ?_
    cases r with
    | handled => exact hP.pure _
    | statement code => exact hP.pure _
    | value code order => exact hP.throw _

theorem dress (hP : Compositional P) (h : ∀ plug, s.next = some plug → P plug.emit) (code : String)
    (thisOnly : Bool) : P (s.dress code thisOnly) := by
  unfold Site.dress
  cases thisOnly with
  | true => exact hP.bind (hP.pure _) fun _ => hP.pure _
  | false => exact hP.bind (hP.nextCode h) fun _ => hP.pure _

/-- What is done with the result of an emitter. -/
theorem dressed (hP : Compositional P) (h : ∀ plug, s.next = some plug → P plug.emit) (thisOnly : Bool)
    (r : Result) : P (match r with
      | .handled => return .handled
      | .statement code => return .statement (← s.dress code thisOnly)
      | .value code order => do
        if s.head.link != .value && s.head.link != .top then
          Emit.failIn s.block.name .expectedStatement
        return .value (← s.dress code thisOnly) order : Emit Result) := by
  cases r with
  | handled => exact hP.pure _
  | statement code => exact hP.bind (hP.dress h code thisOnly) fun _ => hP.pure _
  | value code order =>
    dsimp only
    split
    · exact hP.throw _
    · exact hP.bind (hP.dress h code thisOnly) fun _ => hP.pure _

theorem emit (hP : Compositional P)
    (hemitter : ∀ emitter, emitters.lookup s.head.kind = some emitter → P (emitter s))
    (hnext : ∀ plug, s.next = some plug → P plug.emit) (thisOnly : Bool) : P (s.emit emitters thisOnly) := by
  refine hP.bind (hP.attempt ?_ fun f => hP.throw _) (hP.dressed hnext thisOnly)
  split
  · next emitter hfound => exact hP.bind (hemitter emitter hfound) fun r => hP.bind hP.check fun _ => hP.pure _
  · exact hP.throw _

/-- The emission of a tree of blocks. -/
theorem block (hP : Compositional P)
    (hemitters : ∀ kind emitter, emitters.lookup kind = some emitter → ∀ s : Site,
      (∀ socket plug, s.plug? socket = some plug → P plug.emit) → (∀ plug, s.next = some plug → P plug.emit) →
        P (emitter s)) (b : Block) (thisOnly : Bool) : P (b.emit emitters thisOnly) := by
  induction b using Block.inductionOn generalizing thisOnly with
  | h b ih =>
    rw [Block.emit_eq]
    split
    · split
      · exact hP.pure _
      · cases hnext : b.next with
        | none => exact hP.pure _
        | some c => exact ih c (.inr hnext) false
    · have hplug : ∀ socket plug, (b.site emitters).plug? socket = some plug → P plug.emit := by
        intro socket plug hp
        obtain ⟨s, hs, -, hplugged, hemit⟩ := Block.plug?_site hp
        rw [hemit]
        exact ih _ (.inl ⟨s, hs, hplugged⟩) false
      have hnext : ∀ plug, (b.site emitters).next = some plug → P plug.emit := by
        intro plug hp
        obtain ⟨hchained, hemit⟩ := Block.next_site hp
        rw [hemit]
        exact ih _ (.inr hchained) false
      exact hP.emit (fun emitter hfound => hemitters _ emitter hfound _ hplug hnext) hnext thisOnly

theorem emitTop (hP : Compositional P) (hblock : ∀ b : Block, P (b.emit emitters false)) (top : List Block) :
    P (Generator.emitTop emitters top) := by
  induction top with
  | nil => exact hP.pure _
  | cons b rest ih => exact hP.bind (hblock b) fun r => hP.bind ih fun lines => hP.pure _

end Compositional
end Blockwright.Emit

namespace Blockwright

namespace Pass

/-- The pass behind demands made one after the other. -/
def behind (settings : PassSettings) (p : Pass) (ds : List Demand) : Pass :=
  ds.foldl (fun p d => (d.perform.run settings p).2) p

variable {settings : PassSettings}

@[simp] theorem behind_cons (p : Pass) (d : Demand) (ds : List Demand) :
    p.behind settings (d :: ds) = (d.perform.run settings p).2.behind settings ds := rfl

theorem behind_append (p : Pass) (ds ds' : List Demand) :
    p.behind settings (ds ++ ds') = (p.behind settings ds).behind settings ds' :=
  List.foldl_append

/-- No demand fails on its own. -/
theorem run_demand (p : Pass) (d : Demand) :
    ∃ answer, d.perform.run settings p = (.ok answer, p.behind settings [d]) := by
  cases d with
  | call c => exact ⟨_, (run_perform p c).trans (by rw [behind_cons, Demand.perform, run_perform]; rfl)⟩
  | setVariables idNames => exact ⟨"", rfl⟩

/-- What every demand of a list keeps. -/
theorem behind_keeps {I : Pass → Prop} {p : Pass} {ds : List Demand}
    (hkeep : ∀ p d, d ∈ ds → I p → I (d.perform.run settings p).2) (hp : I p) : I (p.behind settings ds) := by
  induction ds generalizing p with
  | nil => exact hp
  | cons d ds ih =>
    exact ih (fun p d' hd' => hkeep p d' (List.mem_cons_of_mem _ hd')) (hkeep p d List.mem_cons_self hp)

/-- What a demand establishes and every demand keeps holds at the end. -/
theorem behind_of_mem {I : Pass → Prop} {p : Pass} {ds : List Demand} {d : Demand}
    (hkeep : ∀ p (d : Demand), I p → I (d.perform.run settings p).2) (hd : d ∈ ds)
    (hest : ∀ before rest, ds = before ++ d :: rest → I ((p.behind settings before).behind settings [d])) :
    I (p.behind settings ds) := by
  obtain ⟨before, rest, rfl⟩ := List.append_of_mem hd
  rw [List.append_cons, behind_append, behind_append]
  exact behind_keeps (fun p d _ => hkeep p d) (hest before rest rfl)

end Pass

namespace Emit

variable {settings : PassSettings} {α β : Type}

/-- Run from a pass, the action makes these demands and ends in this way. -/
inductive Journal (settings : PassSettings) : {α : Type} → Emit α → Pass → List Demand → Except Failure α → Prop
  | pure {α : Type} (a : α) (p : Pass) : Journal settings (Pure.pure a : Emit α) p [] (.ok a)
  | throw {α : Type} (f : Failure) (p : Pass) : Journal settings (MonadExcept.throw f : Emit α) p [] (.error f)
  | settings (p : Pass) : Journal settings (read : Emit PassSettings) p [] (.ok settings)
  | pass (p : Pass) : Journal settings (get : Emit Pass) p [] (.ok p)
  | demand {d : Demand} {p : Pass} {answer : String} (h : (d.perform.run settings p).1 = .ok answer) :
    Journal settings d.perform p [d] (.ok answer)
  | bind {α β : Type} {x : Emit α} {k : α → Emit β} {p : Pass} {ds ds' : List Demand} {a : α}
    {r : Except Failure β} :
    Journal settings x p ds (.ok a) → Journal settings (k a) (p.behind settings ds) ds' r →
      Journal settings (x >>= k) p (ds ++ ds') r
  | stop {α β : Type} {x : Emit α} {k : α → Emit β} {p : Pass} {ds : List Demand} {f : Failure} :
    Journal settings x p ds (.error f) → Journal settings (x >>= k) p ds (.error f)
  | through {α : Type} {x : Emit α} {h : Failure → Emit α} {p : Pass} {ds : List Demand} {a : α} :
    Journal settings x p ds (.ok a) → Journal settings (tryCatch x h) p ds (.ok a)
  | caught {α : Type} {x : Emit α} {h : Failure → Emit α} {p : Pass} {ds ds' : List Demand} {f : Failure}
    {r : Except Failure α} :
    Journal settings x p ds (.error f) → Journal settings (h f) (p.behind settings ds) ds' r →
      Journal settings (tryCatch x h) p (ds ++ ds') r

/-- The run ends as its journal says, in the pass behind its demands. -/
theorem Journal.run {x : Emit α} {p : Pass} {ds : List Demand} {r : Except Failure α}
    (h : Journal settings x p ds r) : x.run settings p = (r, p.behind settings ds) := by
  induction h with
  | pure a p => rfl
  | throw f p => rfl
  | settings p => rfl
  | pass p => rfl
  | @demand d p answer h =>
    obtain ⟨answer', hrun⟩ := Pass.run_demand p d
    rw [hrun] at h ⊢
    cases h
    rfl
  | bind _ _ ihx ihk =>
    rw [run_bind, ihx, Pass.behind_append]
    exact ihk
  | stop _ ihx => rw [run_bind, ihx]
  | through _ ihx => rw [run_tryCatch, ihx]
  | caught _ _ ihx ihh =>
    rw [run_tryCatch, ihx, Pass.behind_append]
    exact ihh

/-- Run from a pass, the action has a journal that begins with these demands and goes on with allowed
ones only. -/
def Starts (settings : PassSettings) (allowed : Demand → Prop) (x : Emit α) (p : Pass) (ds : List Demand) : Prop :=
  ∃ ds' r, Journal settings x p (ds ++ ds') r ∧ ∀ d ∈ ds', allowed d

/-- From every pass the action has a journal, all of whose demands are allowed. -/
def Journaled (settings : PassSettings) (allowed : Demand → Prop) (x : Emit α) : Prop :=
  ∀ p, Starts settings allowed x p []

namespace Starts

variable {allowed : Demand → Prop} {x : Emit α} {p : Pass} {ds : List Demand}

theorem before {k : α → Emit β} (hx : Starts settings allowed x p ds) (hk : ∀ a, Journaled settings allowed (k a)) :
    Starts settings allowed (x >>= k) p ds := by
  obtain ⟨ds', f | a, hjournal, hds'⟩ := hx
  · exact ⟨ds', _, .stop hjournal, hds'⟩
  · obtain ⟨ds'', r, hrest, hds''⟩ := hk a (p.behind settings (ds ++ ds'))
    refine ⟨ds' ++ ds'', r, ?_, List.forall_mem_append.2 ⟨hds', hds''⟩⟩
    rw [← List.append_assoc]
    exact .bind hjournal hrest

theorem perform {d : Demand} {k : String → Emit α}
    (hk : ∀ answer, Starts settings allowed (k answer) (p.behind settings [d]) ds) :
    Starts settings allowed (d.perform >>= k) p (d :: ds) := by
  obtain ⟨answer, hrun⟩ := Pass.run_demand p d
  obtain ⟨ds', r, hrest, hds'⟩ := hk answer
  have hjournal : Journal settings (d.perform >>= k) p ([d] ++ (ds ++ ds')) r :=
    .bind (.demand (congrArg Prod.fst hrun)) hrest
  exact ⟨ds', r, hjournal, hds'⟩

theorem guarded {h : Failure → Emit α} (hx : Starts settings allowed x p ds)
    (hh : ∀ f, Journaled settings allowed (h f)) : Starts settings allowed (tryCatch x h) p ds := by
  obtain ⟨ds', f | a, hjournal, hds'⟩ := hx
  · obtain ⟨ds'', r, hrest, hds''⟩ := hh f (p.behind settings (ds ++ ds'))
    refine ⟨ds' ++ ds'', r, ?_, List.forall_mem_append.2 ⟨hds', hds''⟩⟩
    rw [← List.append_assoc]
    exact .caught hjournal hrest
  · exact ⟨ds', _, .through hjournal, hds'⟩

end Starts

namespace Journaled

variable {allowed : Demand → Prop} {x : Emit α}

theorem pure (a : α) : Journaled settings allowed (Pure.pure a) := fun p => ⟨[], _, .pure a p, by simp⟩

theorem throw (f : Failure) : Journaled settings allowed (MonadExcept.throw f : Emit α) :=
  fun p => ⟨[], _, .throw f p, by simp⟩

theorem read : Journaled settings allowed (MonadReader.read : Emit PassSettings) :=
  fun p => ⟨[], _, .settings p, by simp⟩

theorem get : Journaled settings allowed (MonadState.get : Emit Pass) := fun p => ⟨[], _, .pass p, by simp⟩

theorem demand {d : Demand} (h : allowed d) : Journaled settings allowed d.perform := by
  intro p
  obtain ⟨answer, hrun⟩ := Pass.run_demand p d
  exact ⟨[d], _, .demand (congrArg Prod.fst hrun), by simpa using h⟩

theorem bind {k : α → Emit β} (hx : Journaled settings allowed x) (hk : ∀ a, Journaled settings allowed (k a)) :
    Journaled settings allowed (x >>= k) :=
  fun p => (hx p).before hk

theorem attempt {h : Failure → Emit α} (hx : Journaled settings allowed x)
    (hh : ∀ f, Journaled settings allowed (h f)) : Journaled settings allowed (tryCatch x h) :=
  fun p => (hx p).guarded hh

theorem compositional (settings : PassSettings) (allowed : Demand → Prop) :
    Compositional (Journaled settings allowed) where
  pure := pure
  throw := throw
  get := get
  indent := read.bind fun _ => pure _
  bind := bind
  attempt := attempt

/-- An action that a licence covers makes only demands that the licence allows. -/
theorem within {s : Site} {l : Licence} (hx : Within s l x) (hdemand : ∀ d, l.demand d → allowed d)
    (hplug : ∀ socket plug, s.plug? socket = some plug → Journaled settings allowed plug.emit)
    (hnext : ∀ plug, s.next = some plug → Journaled settings allowed plug.emit) : Journaled settings allowed x := by
  induction hx with
  | pure a => exact pure a
  | bind _ _ ihx ihk => exact ihx.bind ihk
  | attempt _ _ ihx ihh => exact ihx.attempt ihh
  | settings => exact read
  | pass => exact get
  | demand d hd => exact demand (hdemand d hd)
  | throw f _ => exact throw f
  | value socket outer _ => exact (compositional settings allowed).value outer (hplug socket)
  | statements socket _ => exact (compositional settings allowed).statements (hplug socket)
  | nextCode => exact (compositional settings allowed).nextCode hnext
  | plugged hp => exact hplug _ _ hp
  | chained hp => exact hnext _ hp

end Journaled

/-- Every emitter keeps to some licence that asks for allowed demands only. -/
def Licensed (allowed : Demand → Prop) (emitters : Emitters) : Prop :=
  ∀ kind emitter, emitters.lookup kind = some emitter →
    ∀ s, ∃ l : Licence, (∀ d, l.demand d → allowed d) ∧ Within s l (emitter s)

variable {allowed : Demand → Prop} {emitters : Emitters} {s : Site} {thisOnly : Bool}

/-- The journal of a block begins as the one of its emitter. -/
theorem Starts.emit {p : Pass} {ds : List Demand}
    (hnext : ∀ plug, s.next = some plug → Journaled settings allowed plug.emit)
    (hknown : ∀ emitter, emitters.lookup s.head.kind = some emitter → Starts settings allowed (emitter s) p ds)
    (hunknown : emitters.lookup s.head.kind = none → ds = []) :
    Starts settings allowed (s.emit emitters thisOnly) p ds := by
  refine .before (.guarded ?_ fun f => .throw _) ((Journaled.compositional settings allowed).dressed hnext thisOnly)
  split
  · next emitter hfound =>
    exact (hknown emitter hfound).before fun r => .bind (Journaled.compositional settings allowed).check fun _ => .pure _
  · next hfound =>
    rw [hunknown (Option.eq_none_iff_forall_ne_some.2 hfound)]
    exact Journaled.throw _ p

/-- The emission of a tree has a journal. -/
theorem Licensed.journaled_block (h : Licensed allowed emitters) (b : Block) (thisOnly : Bool) :
    Journaled settings allowed (b.emit emitters thisOnly) := by
  refine (Journaled.compositional settings allowed).block (fun kind emitter hfound s hplug hnext => ?_) b thisOnly
  obtain ⟨l, hdemand, hwithin⟩ := h kind emitter hfound s
  exact Journaled.within hwithin hdemand hplug hnext

end Emit
end Blockwright
