import Blockwright.Proofs.Script.Memory
/-!
# Positions of items and letters

The trees of code that does something at a place of a list or a text. Each of them works at one
and the same position: the one that the place and the index stand for, whether it counts from
either end, cuts the sequence, or subtracts from its length.
-/

namespace Blockwright

open Script

namespace Script

/-! ## Code of a block -/

/-- The tree of a block's code: a value or a statement. -/
inductive Fragment where
  | value (a : Expr)
  | statement (s : Statement)

namespace Fragment

/-- Runs a fragment. A statement has no value. -/
def run : Fragment → Memory → Option (Value × Memory)
  | .value a, m => a.eval m
  | .statement s, m => (s.run m).map (.undefined, ·)

/-- The words in a fragment. -/
def words : Fragment → List String
  | .value a => a.words
  | .statement s => s.words

/-- The tree of the code of a result. -/
def ofResult? : Result → Option Fragment
  | .value code _ => (Expr.ofCode? code).map .value
  | .statement code => (Statement.ofCode? code).map .statement
  | .handled => none

/-- The code of the result is the fragment as it is written. -/
def IsWritten : Fragment → Result → Prop
  | .value a, .value code _ => code = a.code
  | .statement s, .statement code => code = s.code
  | _, _ => False

/-- A written fragment is read back. -/
theorem ofResult?_of_isWritten {f : Fragment} {r : Result} (hf : ∀ x ∈ f.words, Identifier.isLegal x = true)
    (h : f.IsWritten r) : ofResult? r = some f := by
  cases f with
  | value a =>
    cases r with
    | value code order => rw [ofResult?, show code = a.code from h, Expr.ofCode?_code hf, Option.map_some]
    | _ => cases h
  | statement s =>
    cases r with
    | statement code => rw [ofResult?, show code = s.code from h, Statement.ofCode?_code hf, Option.map_some]
    | _ => cases h

end Fragment
end Script

/-- Runs the code of a result. -/
def Result.perform (r : Result) (m : Memory) : Option (Value × Memory) := (Fragment.ofResult? r).bind (·.run m)

/-! ## Places -/

/-- Where a block looks in a sequence. -/
inductive Spot where
  | first
  | last
  | fromStart
  | fromEnd
deriving DecidableEq, Repr

namespace Spot

/-- The option of a block that means the place. -/
def option : Spot → String
  | .first => "FIRST"
  | .last => "LAST"
  | .fromStart => "FROM_START"
  | .fromEnd => "FROM_END"

/-- Whether the place takes an index. -/
def isCounted : Spot → Bool
  | .fromStart | .fromEnd => true
  | _ => false

/-- The position in a sequence of `n`, counted from zero, for an index `i` that counts from `base`. -/
def position (base : Int) (n : Nat) (i : Int) : Spot → Int
  | .first => 0
  | .last => n - 1
  | .fromStart => i - base
  | .fromEnd => n - 1 - (i - base)

/-- The position counted from the end of the sequence, if it is negative. -/
def offset (base : Int) (i : Int) : Spot → Int
  | .first => 0
  | .last => -1
  | .fromStart => i - base
  | .fromEnd => -(i + (1 - base))

/-- The index variable, if the place takes one. -/
def leaves (index : RawText) (spot : Spot) : List Operators.Leaf := if spot.isCounted then [.named index] else []

variable {base i : Int} {n : Nat}

theorem position_bounds (hlow : 0 ≤ i - base) (hhigh : i - base < n) (spot : Spot) :
    0 ≤ spot.position base n i ∧ (spot.position base n i).toNat < n := by
  cases spot <;> simp only [position] <;> omega

theorem relative_offset (hlow : 0 ≤ i - base) (hhigh : i - base < n) (spot : Spot) :
    relative n (spot.offset base i) = (spot.position base n i).toNat := by
  cases spot with
  | first => exact (relative_of_nonneg (Int.le_refl 0)).trans (by simp [position])
  | last => exact (relative_of_neg (show (-1 : Int) < 0 by decide)).trans rfl
  | fromStart =>
    have hmin : min (i - base).toNat n = (i - base).toNat := by omega
    exact (relative_of_nonneg hlow).trans hmin
  | fromEnd =>
    have hfar : (n : Int) + -(i + (1 - base)) = n - 1 - (i - base) := by omega
    exact (relative_of_neg (show -(i + (1 - base)) < 0 by omega)).trans (congrArg Int.toNat hfar)

end Spot

/-- What a block does with an item of a list. -/
inductive Access where
  | get
  | take
  | remove
  | set
deriving DecidableEq, Repr

namespace Access

/-- The option of a block that means the access. -/
def mode : Access → String
  | .get => "GET"
  | .take => "GET_REMOVE"
  | .remove => "REMOVE"
  | .set => "SET"

/-- What the access answers when it finds an item. -/
def answer (item : Value) : Access → Value
  | .get | .take => item
  | .remove | .set => .undefined

/-- The items behind the access to the one at a position. -/
def after (items : List Value) (k : Nat) (value : Value) : Access → List Value
  | .get => items
  | .take | .remove => items.eraseIdx k
  | .set => items.set k value

end Access

namespace Script

/-! ## Trees -/

section
variable (base : Int) (list index value : String)

/-- The call of a method. -/
def invocation (a : Expr) (method : String) (arguments : List Expr) : Expr := .call (.member a method) arguments

/-- The index of an item, which counts from the end when it is negative. -/
def signedIndex : Spot → Expr
  | .first => .number 0
  | .last => .negative (.number 1)
  | .fromStart => (Expr.name index).moved (0 - base)
  | .fromEnd => .negative ((Expr.name index).moved (1 - base))

/-- The index of an item as a difference from the length. -/
def lengthIndex (a : Expr) : Spot → Expr
  | .first => .number 0
  | .last => .difference (.member a "length") (.number 1)
  | .fromStart => (Expr.name index).moved (0 - base)
  | .fromEnd => .difference (.member a "length") ((Expr.name index).moved (1 - base))

/-- The value of an item. -/
def gotten (spot : Spot) : Expr :=
  match spot with
  | .first | .fromStart => .item (.name list) (signedIndex base index spot)
  | .last | .fromEnd => .item (invocation (.name list) "slice" [signedIndex base index spot]) (.number 0)

/-- The items that are taken out of a list, which is one. -/
def spliced (spot : Spot) : Expr := invocation (.name list) "splice" [signedIndex base index spot, .number 1]

/-- The code of an access. -/
def accessed : Access → Spot → Fragment
  | .get, spot => .value (gotten base list index spot)
  | .take, .first => .value (invocation (.name list) "shift" [])
  | .take, .last => .value (invocation (.name list) "pop" [])
  | .take, spot => .value (.item (spliced base list index spot) (.number 0))
  | .remove, .first => .statement (.expression (invocation (.name list) "shift" []))
  | .remove, .last => .statement (.expression (invocation (.name list) "pop" []))
  | .remove, spot => .statement (.expression (spliced base list index spot))
  | .set, spot => .statement (.assignment (.item (.name list) (lengthIndex base index (.name list) spot)) (.name value))

/-- The code of a letter. -/
def lettered (text : String) (spot : Spot) : Expr :=
  match spot with
  | .first | .fromStart => invocation (.name text) "charAt" [signedIndex base index spot]
  | .last => invocation (.name text) "slice" [signedIndex base index spot]
  | .fromEnd => invocation (invocation (.name text) "slice" [signedIndex base index spot]) "charAt" [.number 0]

end

/-! ## Words of the trees -/

section
variable {base : Int} {list index value : String} {spot : Spot} (hlist : Identifier.isLegal list = true)
  (hindex : spot.isCounted = true → Identifier.isLegal index = true)

theorem isLegal_invocation {a : Expr} (ha : ∀ x ∈ a.words, Identifier.isLegal x = true) {method : String}
    {arguments : List Expr} (hmethod : Identifier.isLegal method = true)
    (harguments : ∀ x ∈ argumentWords arguments, Identifier.isLegal x = true) :
    ∀ x ∈ (invocation a method arguments).words, Identifier.isLegal x = true := by
  simp only [invocation, Expr.words, List.forall_mem_append, List.forall_mem_cons]
  exact ⟨⟨hmethod, ha⟩, harguments⟩

include hlist in
theorem isLegal_name : ∀ x ∈ (Expr.name list).words, Identifier.isLegal x = true := by simpa [Expr.words] using hlist

include hindex in
theorem isLegal_signedIndex : ∀ x ∈ (signedIndex base index spot).words, Identifier.isLegal x = true := by
  cases spot <;> simp_all [signedIndex, Expr.words, Expr.words_moved, Spot.isCounted]

include hindex in
theorem isLegal_lengthIndex {a : Expr} (ha : ∀ x ∈ a.words, Identifier.isLegal x = true) :
    ∀ x ∈ (lengthIndex base index a spot).words, Identifier.isLegal x = true := by
  have hmember : ∀ x ∈ (Expr.member a "length").words, Identifier.isLegal x = true :=
    List.forall_mem_cons.2 ⟨by decide, ha⟩
  cases spot with
  | first => simp [lengthIndex, Expr.words]
  | last =>
    rw [lengthIndex, Expr.words, Expr.words, List.append_nil]
    exact hmember
  | fromStart => simpa [lengthIndex, Expr.words_moved, Expr.words] using hindex rfl
  | fromEnd =>
    rw [lengthIndex, Expr.words, List.forall_mem_append, Expr.words_moved]
    exact ⟨hmember, isLegal_name (hindex rfl)⟩

include hlist hindex in
theorem isLegal_cut {method : String} (hmethod : Identifier.isLegal method = true) :
    ∀ x ∈ (invocation (.name list) method [signedIndex base index spot]).words, Identifier.isLegal x = true :=
  isLegal_invocation (isLegal_name hlist) hmethod (by simpa [argumentWords] using isLegal_signedIndex hindex)

include hlist hindex in
theorem isLegal_accessed {access : Access} (hvalue : access = .set → Identifier.isLegal value = true) :
    ∀ x ∈ (accessed base list index value access spot).words, Identifier.isLegal x = true := by
  have hsigned : ∀ x ∈ (signedIndex base index spot).words, Identifier.isLegal x = true := isLegal_signedIndex hindex
  have hspliced : ∀ x ∈ (spliced base list index spot).words, Identifier.isLegal x = true :=
    isLegal_invocation (isLegal_name hlist) (by decide) (by simpa [argumentWords, Expr.words] using hsigned)
  have hended : ∀ method, Identifier.isLegal method = true →
      ∀ x ∈ (invocation (.name list) method []).words, Identifier.isLegal x = true :=
    fun _ hmethod => isLegal_invocation (isLegal_name hlist) hmethod (by simp [argumentWords])
  cases access with
  | get =>
    have hitem : ∀ x ∈ (Expr.item (.name list) (signedIndex base index spot)).words, Identifier.isLegal x = true := by
      simpa [Expr.words, hlist] using hsigned
    have hcut : ∀ x ∈ (Expr.item (invocation (.name list) "slice" [signedIndex base index spot]) (.number 0)).words,
        Identifier.isLegal x = true := by
      rw [Expr.words, Expr.words, List.append_nil]
      exact isLegal_cut hlist hindex (by decide)
    cases spot with
    | first => exact hitem
    | last => exact hcut
    | fromStart => exact hitem
    | fromEnd => exact hcut
  | take =>
    have hcut : ∀ x ∈ (Expr.item (spliced base list index spot) (.number 0)).words, Identifier.isLegal x = true := by
      simpa [Expr.words] using hspliced
    cases spot with
    | first => exact hended "shift" (by decide)
    | last => exact hended "pop" (by decide)
    | fromStart => exact hcut
    | fromEnd => exact hcut
  | remove =>
    cases spot with
    | first => exact hended "shift" (by decide)
    | last => exact hended "pop" (by decide)
    | fromStart => exact hspliced
    | fromEnd => exact hspliced
  | set =>
    have hlength : ∀ x ∈ (lengthIndex base index (.name list) spot).words, Identifier.isLegal x = true :=
      isLegal_lengthIndex hindex (isLegal_name hlist)
    simp only [accessed, Fragment.words, Statement.words, Expr.words, List.forall_mem_append, List.forall_mem_cons]
    exact ⟨⟨⟨hlist, by simp⟩, hlength⟩, hvalue rfl, by simp⟩

include hlist hindex in
theorem isLegal_lettered : ∀ x ∈ (lettered base index list spot).words, Identifier.isLegal x = true := by
  cases spot with
  | first => exact isLegal_cut hlist hindex (by decide)
  | last => exact isLegal_cut hlist hindex (by decide)
  | fromStart => exact isLegal_cut hlist hindex (by decide)
  | fromEnd =>
    exact isLegal_invocation (isLegal_cut hlist hindex (by decide)) (by decide) (by simp [argumentWords, Expr.words])

end

/-! ## Running the trees -/

section
variable {base i : Int} {list index value text : String} {m : Memory} {place : Nat} {items : List Value} {spot : Spot}

theorem eval_name {x : String} {v : Value} (h : m.values x = some v) : (Expr.name x).eval m = some (v, m) := by
  rw [Expr.eval, h]
  rfl

theorem eval_signedIndex (h : spot.isCounted = true → m.values index = some (.number i)) :
    (signedIndex base index spot).eval m = some (.number (spot.offset base i), m) := by
  cases spot with
  | first => rfl
  | last => rfl
  | fromStart =>
    have hmoved := Expr.eval_moved (eval_name (h rfl)) (0 - base)
    rw [signedIndex, hmoved, Spot.offset, show i + (0 - base) = i - base by omega]
  | fromEnd =>
    rw [signedIndex, Expr.eval, Expr.eval_moved (eval_name (h rfl))]
    rfl

theorem eval_invocation {a : Expr} {v : Value} (h : a.eval m = some (v, m)) (method : String) {arguments : List Expr}
    {vs : List Value} (hvs : evalAll arguments m = some (vs, m)) :
    (invocation a method arguments).eval m = m.invoke? v method vs := by
  rw [invocation, Expr.eval, h]
  simp [hvs]

theorem evalAll_signedIndex (h : spot.isCounted = true → m.values index = some (.number i)) :
    evalAll [signedIndex base index spot] m = some ([.number (spot.offset base i)], m) := by
  simp [evalAll, eval_signedIndex h]

theorem eval_length {a : Expr} {v : Value} {n : Nat} (hvalue : a.eval m = some (v, m))
    (hlength : m.property? v "length" = some (.number n)) : (Expr.member a "length").eval m = some (.number n, m) := by
  rw [Expr.eval, hvalue]
  simp [hlength]

/-- A difference from the length, whatever the index and the length are. -/
theorem eval_lengthIndex (hindex : spot.isCounted = true → m.values index = some (.number i)) {a : Expr} {v : Value}
    {n : Nat} (hvalue : a.eval m = some (v, m)) (hlength : m.property? v "length" = some (.number n)) :
    (lengthIndex base index a spot).eval m = some (.number (spot.position base n i), m) := by
  have hmember := eval_length hvalue hlength
  cases spot with
  | first => rfl
  | last =>
    rw [lengthIndex, Expr.eval, hmember]
    rfl
  | fromStart =>
    have hmoved := Expr.eval_moved (eval_name (hindex rfl)) (0 - base)
    rw [lengthIndex, hmoved, Spot.position, show i + (0 - base) = i - base by omega]
  | fromEnd =>
    rw [lengthIndex, Expr.eval, hmember]
    have hmoved := Expr.eval_moved (eval_name (hindex rfl)) (1 - base)
    simp only [Option.bind_eq_bind, Option.bind_some, hmoved, Spot.position]
    rw [show (n : Int) - (i + (1 - base)) = n - 1 - (i - base) by omega]
    rfl

variable (hlist : m.values list = some (.list place)) (hitems : m.lists[place]? = some items)
  (hindex : spot.isCounted = true → m.values index = some (.number i))

variable {item : Value} (hlow : 0 ≤ i - base) (hhigh : i - base < items.length)
  (hitem : items[(spot.position base items.length i).toNat]? = some item)

theorem item?_zero_allocate {m : Memory} {item : Value} {rest : List Value} :
    (m.allocate (item :: rest)).2.item? (m.allocate (item :: rest)).1 (.number 0) = some item := by
  simp [Memory.allocate, Memory.item?]

include hlist hitems hindex hlow hhigh hitem

theorem eval_gotten : ∃ m', (gotten base list index spot).eval m = some (item, m') ∧ m'.values = m.values ∧
    m.lists <+: m'.lists := by
  -- an index from the front finds the item in the list, one from the end cuts a new list that begins with it
  have hfront : (signedIndex base index spot).eval m = some (.number (spot.position base items.length i), m) →
      (Expr.item (.name list) (signedIndex base index spot)).eval m = some (item, m) := by
    intro hsigned
    have hpos := (spot.position_bounds hlow hhigh).1
    rw [Expr.eval, eval_name hlist]
    simp [hsigned, Memory.item?, hitems, hitem, Int.not_lt.2 hpos]
  have hback : (Expr.item (invocation (.name list) "slice" [signedIndex base index spot]) (.number 0)).eval m =
      some (item, (m.allocate (items.drop (spot.position base items.length i).toNat)).2) := by
    obtain ⟨hk, hget⟩ := List.getElem?_eq_some_iff.1 hitem
    have hslice : (invocation (.name list) "slice" [signedIndex base index spot]).eval m =
        some (m.allocate (items.drop (spot.position base items.length i).toNat)) := by
      rw [eval_invocation (eval_name hlist) "slice" (evalAll_signedIndex hindex)]
      simp [Memory.invoke?, hitems, Memory.invokeList?, Spot.relative_offset hlow hhigh]
    rw [List.drop_eq_getElem_cons hk, hget] at hslice ⊢
    rw [Expr.eval, hslice]
    simp [Expr.eval, item?_zero_allocate]
  cases spot with
  | first => exact ⟨m, hfront rfl, rfl, List.prefix_refl _⟩
  | fromStart => exact ⟨m, hfront (eval_signedIndex hindex), rfl, List.prefix_refl _⟩
  | last => exact ⟨_, hback, rfl, List.prefix_append _ _⟩
  | fromEnd => exact ⟨_, hback, rfl, List.prefix_append _ _⟩

theorem eval_spliced : (spliced base list index spot).eval m =
    some ((m.store place (items.eraseIdx (spot.position base items.length i).toNat)).allocate [item]) := by
  obtain ⟨hk, hget⟩ := List.getElem?_eq_some_iff.1 hitem
  have harguments : evalAll [signedIndex base index spot, .number 1] m =
      some ([.number (spot.offset base i), .number 1], m) := by
    simp [evalAll, eval_signedIndex hindex, Expr.eval]
  rw [spliced, eval_invocation (eval_name hlist) "splice" harguments, List.eraseIdx_eq_take_drop_succ]
  simp [Memory.invoke?, hitems, Memory.invokeList?, Spot.relative_offset hlow hhigh, List.drop_eq_getElem_cons hk, hget]

omit hindex hlow hhigh in
theorem eval_ended (hfirst : spot = .first ∨ spot = .last) :
    (invocation (.name list) (if spot = .first then "shift" else "pop") []).eval m =
      some (item, m.store place (items.eraseIdx (spot.position base items.length i).toNat)) := by
  rw [eval_invocation (eval_name hlist) _ (evalAll.eq_1 m)]
  rcases hfirst with rfl | rfl
  · have hhead : items.head? = some item := List.head?_eq_getElem?.trans hitem
    simp [Memory.invoke?, hitems, Memory.invokeList?, hhead, Spot.position]
  · have hlast : ((items.length : Int) - 1).toNat = items.length - 1 := by omega
    rw [Spot.position, hlast] at hitem ⊢
    have hitem' : items.getLast? = some item := List.getLast?_eq_getElem?.trans hitem
    simp [Memory.invoke?, hitems, Memory.invokeList?, hitem', List.eraseIdx_length_sub_one]

theorem run_accessed {access : Access} {v : Value} (hvalue : access = .set → m.values value = some v) :
    ∃ m', (accessed base list index value access spot).run m = some (access.answer item, m') ∧
      m'.values = m.values ∧
      m.lists.set place (access.after items (spot.position base items.length i).toNat v) <+: m'.lists := by
  have hkept : m.lists.set place items = m.lists := by
    obtain ⟨hplace, rfl⟩ := List.getElem?_eq_some_iff.1 hitems
    exact List.set_getElem_self hplace
  have hspliced := eval_spliced hlist hitems hindex hlow hhigh hitem
  cases access with
  | get =>
    obtain ⟨m', heval, hvalues, hlists⟩ := eval_gotten hlist hitems hindex hlow hhigh hitem
    exact ⟨m', heval, hvalues, hkept.symm ▸ hlists⟩
  | take =>
    -- at an end the item is shifted or popped, elsewhere it is the only one of the list spliced out
    have hcut : (Expr.item (spliced base list index spot) (.number 0)).eval m =
        some (item, ((m.store place (items.eraseIdx (spot.position base items.length i).toNat)).allocate [item]).2) := by
      rw [Expr.eval, hspliced]
      simp [Expr.eval, item?_zero_allocate]
    cases spot with
    | first => exact ⟨_, eval_ended hlist hitems hitem (.inl rfl), rfl, List.prefix_refl _⟩
    | last => exact ⟨_, eval_ended hlist hitems hitem (.inr rfl), rfl, List.prefix_refl _⟩
    | fromStart => exact ⟨_, hcut, rfl, List.prefix_append _ _⟩
    | fromEnd => exact ⟨_, hcut, rfl, List.prefix_append _ _⟩
  | remove =>
    have hran : ∀ {a : Expr} {dropped m'}, a.eval m = some (dropped, m') →
        (Fragment.statement (.expression a)).run m = some (.undefined, m') := by
      intro a dropped m' ha
      rw [Fragment.run, Statement.run, ha]
      rfl
    cases spot with
    | first => exact ⟨_, hran (eval_ended hlist hitems hitem (.inl rfl)), rfl, List.prefix_refl _⟩
    | last => exact ⟨_, hran (eval_ended hlist hitems hitem (.inr rfl)), rfl, List.prefix_refl _⟩
    | fromStart => exact ⟨_, hran hspliced, rfl, List.prefix_append _ _⟩
    | fromEnd => exact ⟨_, hran hspliced, rfl, List.prefix_append _ _⟩
  | set =>
    have hproperty : m.property? (.list place) "length" = some (.number items.length) := by simp [Memory.property?, hitems]
    have hlength : (lengthIndex base index (.name list) spot).eval m = _ := eval_lengthIndex hindex (eval_name hlist) hproperty
    obtain ⟨hpos, hk⟩ := spot.position_bounds hlow hhigh
    have hset : m.setItem? (.list place) (.number (spot.position base items.length i)) v =
        some (m.store place (items.set (spot.position base items.length i).toNat v)) := by
      have hne : (spot.position base items.length i).toNat ≠ items.length := by omega
      have hwithin : spot.position base items.length i ≤ items.length := by omega
      simp [Memory.setItem?, hitems, hne, Int.not_lt.2 hpos, hwithin]
    refine ⟨m.store place (items.set (spot.position base items.length i).toNat v), ?_, rfl, List.prefix_refl _⟩
    rw [accessed, Fragment.run, Statement.run, eval_name hlist]
    simp [hlength, eval_name (hvalue rfl), hset]
    rfl

end

/-! ## Letters -/

theorem eval_lettered {base i : Int} {index text : String} {m : Memory} {units : List UInt16} {u : UInt16} {spot : Spot}
    (htext : m.values text = some (.text units))
    (hindex : spot.isCounted = true → m.values index = some (.number i)) (hlow : 0 ≤ i - base)
    (hhigh : i - base < units.length) (hunit : units[(spot.position base units.length i).toNat]? = some u) :
    (lettered base index text spot).eval m = some (.text [u], m) := by
  obtain ⟨hk, hget⟩ := List.getElem?_eq_some_iff.1 hunit
  have hpos := (spot.position_bounds hlow hhigh).1
  -- from the front the letter is asked for, from the end the text is cut in front of it
  have hfront : (signedIndex base index spot).eval m = some (.number (spot.position base units.length i), m) →
      (invocation (.name text) "charAt" [signedIndex base index spot]).eval m = some (.text [u], m) := by
    intro hsigned
    have harguments : evalAll [signedIndex base index spot] m = some ([.number (spot.position base units.length i)], m) := by
      simp [evalAll, hsigned]
    rw [eval_invocation (eval_name htext) "charAt" harguments]
    simp [Memory.invoke?, Memory.invokeText?, hunit, Int.not_lt.2 hpos]
  have hslice : (invocation (.name text) "slice" [signedIndex base index spot]).eval m =
      some (.text (units.drop (spot.position base units.length i).toNat), m) := by
    rw [eval_invocation (eval_name htext) "slice" (evalAll_signedIndex hindex)]
    simp [Memory.invoke?, Memory.invokeText?, Spot.relative_offset hlow hhigh]
  cases spot with
  | first => exact hfront rfl
  | fromStart => exact hfront (eval_signedIndex hindex)
  | last =>
    have hone : units.drop (Spot.last.position base units.length i).toNat = [u] := by
      have hend : units.length ≤ (Spot.last.position base units.length i).toNat + 1 := by
        simp only [Spot.position]
        omega
      rw [List.drop_eq_getElem_cons hk, hget, List.drop_eq_nil_of_le hend]
    rw [lettered, hslice, hone]
  | fromEnd =>
    rw [List.drop_eq_getElem_cons hk, hget] at hslice
    rw [lettered, eval_invocation hslice "charAt" (show evalAll [.number 0] m = some ([.number 0], m) from rfl)]
    simp [Memory.invoke?, Memory.invokeText?]

end Script
end Blockwright
