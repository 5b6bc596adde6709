import Blockwright.Emit.Lists
import Blockwright.Emit.Texts
import Blockwright.Proofs.Script.Positions
/-!
# Blocks that look in a sequence

Getting, taking, removing and setting an item, and getting a letter: the code of each of these
blocks is the tree of its access, and so works at the position that its place and index stand for.
-/

namespace Blockwright

open Operators Emit Script

variable {settings : PassSettings}

namespace Script

/-! ## Code of accesses -/

theorem code_zero : (Expr.number 0).code = "0" := by
  rw [Expr.code_number]
  decide

theorem code_one : (Expr.number 1).code = "1" := by
  rw [Expr.code_number]
  decide

theorem code_minusOne : (Expr.negative (.number 1)).code = "-1" := by
  rw [Expr.code_negative, Expr.groupedCode_of_isOperand rfl, code_one]
  rfl

section
variable {a : Expr} (h : a.isUse = true)
include h

theorem code_invocation (method : String) (arguments : List Expr) : (invocation a method arguments).code =
    a.code ++ "." ++ method ++ "(" ++ Text.joinWith ", " (arguments.map Expr.code) ++ ")" := by
  rw [invocation, Expr.code_call rfl, Expr.code_member h]

theorem code_item_zero : (Expr.item a (.number 0)).code = a.code ++ "[0]" := by
  rw [Expr.code_item _ h, code_zero, String.append_assoc, String.append_assoc]
  rfl

theorem code_sliced (k : Expr) : (invocation a "slice" [k]).code = a.code ++ ".slice(" ++ k.code ++ ")" := by
  rw [code_invocation h]
  exact String.toList_injective (by simp [Text.joinWith])

theorem code_charAt (k : Expr) : (invocation a "charAt" [k]).code = a.code ++ ".charAt(" ++ k.code ++ ")" := by
  rw [code_invocation h]
  exact String.toList_injective (by simp [Text.joinWith])

theorem code_member_length : (Expr.member a "length").code = a.code ++ ".length" := by
  rw [Expr.code_member h, String.append_assoc]
  rfl

end

theorem code_spliced (base : Int) (list index : String) (spot : Spot) : (spliced base list index spot).code =
    list ++ ".splice(" ++ (signedIndex base index spot).code ++ ", 1)" := by
  rw [spliced, code_invocation rfl, List.map_cons, List.map_cons, List.map_nil, code_one, Expr.code_name]
  exact String.toList_injective (by simp [Text.joinWith])

theorem isWord_of_isLegal {x : String} (h : Identifier.isLegal x = true) : Text.isWord x = true := by
  obtain ⟨c, cs, hx, -⟩ := head_of_isLegal h
  have hchars : ∀ d ∈ x.toList, Text.isWordChar d = true := Identifier.isWordChar_of_mem h
  rw [Text.isWord, Bool.and_eq_true]
  exact ⟨by simp [hx], List.all_eq_true.2 hchars⟩

end Script

/-! ## Lists -/

namespace Access

/-- The kind of block that does the access. -/
def kind : Access → String
  | .set => "lists_setIndex"
  | _ => "lists_getIndex"

/-- The emitter of these blocks. -/
def emitter : Access → Emitter
  | .set => listsSetIndex
  | _ => listsGetIndex

/-- The variables that these blocks ask for in front of the index. -/
def leaves (list value : RawText) : Access → List Leaf
  | .set => [.named list, .named value]
  | _ => [.named list]

theorem lookup_kind (access : Access) : standard.lookup access.kind = some access.emitter := by cases access <;> rfl

end Access

namespace Block

/-- The block accesses an item of a list variable at a place; the index, and the value to set, are variables. -/
structure Accesses (b : Block) (access : Access) (spot : Spot) (list index value : RawText) : Prop where
  kind : b.head.kind = access.kind
  mode : b.head.fieldOr "MODE" "GET" = access.mode
  place : b.head.fieldOr "WHERE" "FROM_START" = spot.option
  list : b.HoldsVariable (if access = .set then "LIST" else "VALUE") list
  index : spot.isCounted = true → b.HoldsVariable "AT" index
  value : access = .set → b.HoldsVariable "TO" value

theorem head_site (b : Block) : (b.site standard).head = b.head := rfl

variable {b : Block} {access : Access} {spot : Spot} {list index value : RawText}

namespace Accesses

/-- What is emitted at the block is the tree of its access, under the names of its variables. -/
def Emits (settings : PassSettings) (b : Block) (access : Access) (spot : Spot) (list index value : RawText) : Prop :=
  ∃ r : Names → Result, Gives settings (access.emitter (b.site standard)) (access.leaves list value ++ spot.leaves index) r ∧
    ∀ n, (accessed (base settings b.head) ((Leaf.named list).text n) ((Leaf.named index).text n)
      ((Leaf.named value).text n) access spot).IsWritten (r n)

theorem emits_get (h : b.Accesses .get spot list index value) :
    Emits settings b .get spot list index value := by
  have hlist : b.HoldsVariable "VALUE" list := h.list
  have hgives : Gives settings ((b.site standard).valueOr "VALUE" Order.member "[]") [.named list] _ :=
    hlist.gives (by decide) "[]"
  unfold Emits Access.emitter listsGetIndex
  simp only [head_site, h.mode, h.place, Access.mode]
  cases spot with
  | first =>
    refine ⟨_, hgives.through (fun x => .value (x ++ "[0]") Order.member) fun _ _ _ => rfl, fun n => ?_⟩
    rw [accessed, gotten, Fragment.IsWritten, signedIndex, code_item_zero rfl, Expr.code_name]
  | last =>
    refine ⟨_, hgives.through (fun x => .value (x ++ ".slice(-1)[0]") Order.member) fun _ _ _ => rfl, fun n => ?_⟩
    rw [accessed, gotten, Fragment.IsWritten, code_item_zero rfl, code_sliced rfl, Expr.code_name, signedIndex, code_minusOne]
    exact String.toList_injective (by simp)
  | fromStart =>
    refine ⟨_, hgives.through₂ ((h.index rfl).gives_moved (by decide))
      (fun x i => .value (x ++ "[" ++ i ++ "]") Order.member) fun _ _ _ => rfl, fun n => ?_⟩
    rw [accessed, gotten, Fragment.IsWritten, Expr.code_item _ rfl, Expr.code_name, signedIndex]
  | fromEnd =>
    refine ⟨_, hgives.through₂ ((h.index rfl).gives_negated (by decide))
      (fun x i => .value (x ++ ".slice(" ++ i ++ ")[0]") Order.functionCall) fun _ _ _ => rfl, fun n => ?_⟩
    rw [accessed, gotten, Fragment.IsWritten, code_item_zero rfl, code_sliced rfl, Expr.code_name, signedIndex]
    exact String.toList_injective (by simp)

theorem emits_take (h : b.Accesses .take spot list index value) :
    Emits settings b .take spot list index value := by
  have hlist : b.HoldsVariable "VALUE" list := h.list
  have hgives : Gives settings ((b.site standard).valueOr "VALUE" Order.member "[]") [.named list] _ :=
    hlist.gives (by decide) "[]"
  have hcut : ∀ (x : String) (n : Names), (Fragment.value (.item
      (spliced (base settings b.head) x ((Leaf.named index).text n) spot) (.number 0))).IsWritten
      (.value (x ++ ".splice(" ++ (signedIndex (base settings b.head) ((Leaf.named index).text n) spot).code ++ ", 1)[0]")
        Order.functionCall) := by
    intro x n
    rw [Fragment.IsWritten, code_item_zero rfl, code_spliced]
    exact String.toList_injective (by simp)
  unfold Emits Access.emitter listsGetIndex
  simp only [head_site, h.mode, h.place, Access.mode]
  cases spot with
  | first =>
    refine ⟨_, hgives.through (fun x => .value (x ++ ".shift()") Order.member) fun _ _ _ => rfl, fun n => ?_⟩
    rw [accessed, Fragment.IsWritten, code_invocation rfl, Expr.code_name]
    exact String.toList_injective (by simp [Text.joinWith])
  | last =>
    refine ⟨_, hgives.through (fun x => .value (x ++ ".pop()") Order.member) fun _ _ _ => rfl, fun n => ?_⟩
    rw [accessed, Fragment.IsWritten, code_invocation rfl, Expr.code_name]
    exact String.toList_injective (by simp [Text.joinWith])
  | fromStart =>
    refine ⟨_, hgives.through₂ ((h.index rfl).gives_moved (by decide))
      (fun x i => .value (x ++ ".splice(" ++ i ++ ", 1)[0]") Order.functionCall) fun _ _ _ => rfl, fun n => ?_⟩
    exact hcut _ n
  | fromEnd =>
    refine ⟨_, hgives.through₂ ((h.index rfl).gives_negated (by decide))
      (fun x i => .value (x ++ ".splice(" ++ i ++ ", 1)[0]") Order.functionCall) fun _ _ _ => rfl, fun n => ?_⟩
    exact hcut _ n

theorem emits_remove (h : b.Accesses .remove spot list index value) :
    Emits settings b .remove spot list index value := by
  have hlist : b.HoldsVariable "VALUE" list := h.list
  have hgives : Gives settings ((b.site standard).valueOr "VALUE" Order.member "[]") [.named list] _ :=
    hlist.gives (by decide) "[]"
  have hcut : ∀ (x : String) (n : Names), (Fragment.statement (.expression
      (spliced (base settings b.head) x ((Leaf.named index).text n) spot))).IsWritten
      (.statement (x ++ ".splice(" ++ (signedIndex (base settings b.head) ((Leaf.named index).text n) spot).code
        ++ ", 1);\n")) := by
    intro x n
    rw [Fragment.IsWritten, Statement.code_expression, code_spliced]
    exact String.toList_injective (by simp)
  unfold Emits Access.emitter listsGetIndex
  simp only [head_site, h.mode, h.place, Access.mode]
  cases spot with
  | first =>
    refine ⟨_, hgives.through (fun x => .statement (x ++ ".shift()" ++ ";\n")) fun _ _ _ => rfl, fun n => ?_⟩
    rw [accessed, Fragment.IsWritten, Statement.code_expression, code_invocation rfl, Expr.code_name]
    exact String.toList_injective (by simp [Text.joinWith])
  | last =>
    refine ⟨_, hgives.through (fun x => .statement (x ++ ".pop()" ++ ";\n")) fun _ _ _ => rfl, fun n => ?_⟩
    rw [accessed, Fragment.IsWritten, Statement.code_expression, code_invocation rfl, Expr.code_name]
    exact String.toList_injective (by simp [Text.joinWith])
  | fromStart =>
    refine ⟨_, hgives.through₂ ((h.index rfl).gives_moved (by decide))
      (fun x i => .statement (x ++ ".splice(" ++ i ++ ", 1);\n")) fun _ _ _ => rfl, fun n => ?_⟩
    exact hcut _ n
  | fromEnd =>
    refine ⟨_, hgives.through₂ ((h.index rfl).gives_negated (by decide))
      (fun x i => .statement (x ++ ".splice(" ++ i ++ ", 1);\n")) fun _ _ _ => rfl, fun n => ?_⟩
    exact hcut _ n

theorem emits_set (h : b.Accesses .set spot list index value) :
    Emits settings b .set spot list index value := by
  have hlist : b.HoldsVariable "LIST" list := h.list
  have hgives : Gives settings ((b.site standard).valueOr "LIST" Order.member "[]") [.named list] _ :=
    hlist.gives (by decide) "[]"
  have hvalue : Gives settings ((b.site standard).valueOr "TO" Order.assignment "null") [.named value] _ :=
    (h.value rfl).gives (by decide) "null"
  -- a list variable is not put into another variable first
  have hcached : ∀ {ls : List Leaf} {n : Names}, n.Sound → (∀ l ∈ ls, l.Known n) → Leaf.named list ∈ ls →
      cachedList ((Leaf.named list).text n) = Pure.pure ("", (Leaf.named list).text n) := by
    intro ls n hn hknown hmem
    exact if_pos (isWord_of_isLegal ((hknown _ hmem).isLegal_text hn))
  have hwritten : ∀ (x i v : String) (k : Expr), k.code = i →
      (Fragment.statement (.assignment (.item (.name x) k) (.name v))).IsWritten (placed "" x "SET" i v) := by
    rintro x i v k rfl
    rw [placed, if_pos rfl, Fragment.IsWritten, Statement.code_assignment, Expr.code_item _ rfl, Expr.code_name,
      Expr.code_name]
    exact String.toList_injective (by simp)
  unfold Emits Access.emitter listsSetIndex
  simp only [head_site, h.mode, h.place, Access.mode]
  cases spot with
  | first =>
    refine ⟨_, hgives.through₂ hvalue (fun x v => .statement (x ++ "[0] = " ++ v ++ ";\n")) fun _ _ _ => rfl, fun n => ?_⟩
    rw [accessed, lengthIndex, Fragment.IsWritten, Statement.code_assignment, code_item_zero rfl, Expr.code_name,
      Expr.code_name]
    exact String.toList_injective (by simp)
  | last =>
    refine ⟨_, hgives.through₂ hvalue (fun x v => placed "" x "SET" (x ++ ".length - 1") v) ?_, fun n => ?_⟩
    · intro n hn hknown
      simp [Spot.option, hcached hn hknown (by simp)]
    · refine hwritten _ _ _ _ ?_
      rw [lengthIndex, Expr.code_difference, code_member_length rfl, Expr.code_name, Expr.groupedCode_of_isOperand rfl,
        code_one]
      exact String.toList_injective (by simp)
  | fromStart =>
    refine ⟨_, hgives.through₃ hvalue ((h.index rfl).gives_moved (by decide)) (fun x v i => placed "" x "SET" i v)
      fun _ _ _ => rfl, fun n => ?_⟩
    exact hwritten _ _ _ _ rfl
  | fromEnd =>
    refine ⟨_, hgives.through₃ hvalue ((h.index rfl).gives_grouped (by decide))
      (fun x v i => placed "" x "SET" (x ++ ".length - " ++ i) v) ?_, fun n => ?_⟩
    · intro n hn hknown
      simp [hcached hn hknown (by simp)]
    · refine hwritten _ _ _ _ ?_
      rw [lengthIndex, Expr.code_difference, code_member_length rfl, Expr.code_name]
      exact String.toList_injective (by simp)

theorem emits (h : b.Accesses access spot list index value) : Emits settings b access spot list index value := by
  cases access with
  | get => exact h.emits_get
  | take => exact h.emits_take
  | remove => exact h.emits_remove
  | set => exact h.emits_set

end Accesses

/-! ## Letters -/

/-- The block asks for a letter of a text variable at a place; the index is a variable. -/
structure AsksLetter (b : Block) (spot : Spot) (text index : RawText) : Prop where
  kind : b.head.kind = "text_charAt"
  place : b.head.fieldOr "WHERE" "FROM_START" = spot.option
  text : b.HoldsVariable "VALUE" text
  index : spot.isCounted = true → b.HoldsVariable "AT" index

theorem AsksLetter.gives {text : RawText} (h : b.AsksLetter spot text index) : ∃ r : Names → Result,
    Gives settings (textCharAt (b.site standard)) ([Leaf.named text] ++ spot.leaves index) r ∧
    ∀ n, (Fragment.value (lettered (base settings b.head) ((Leaf.named index).text n) ((Leaf.named text).text n)
      spot)).IsWritten (r n) := by
  have hgives : Gives settings ((b.site standard).valueOr "VALUE" Order.member "''") [.named text] _ :=
    h.text.gives (by decide) "''"
  unfold textCharAt
  simp only [head_site, h.place]
  cases spot with
  | first =>
    refine ⟨_, hgives.through (fun x => .value (x ++ ".charAt(0)") Order.functionCall) fun _ _ _ => rfl, fun n => ?_⟩
    rw [lettered, Fragment.IsWritten, signedIndex, code_charAt rfl, Expr.code_name, code_zero]
    exact String.toList_injective (by simp)
  | last =>
    refine ⟨_, hgives.through (fun x => .value (x ++ ".slice(-1)") Order.functionCall) fun _ _ _ => rfl, fun n => ?_⟩
    rw [lettered, Fragment.IsWritten, signedIndex, code_sliced rfl, Expr.code_name, code_minusOne]
    exact String.toList_injective (by simp)
  | fromStart =>
    refine ⟨_, hgives.through₂ ((h.index rfl).gives_moved (by decide))
      (fun x i => .value (x ++ ".charAt(" ++ i ++ ")") Order.functionCall) fun _ _ _ => rfl, fun n => ?_⟩
    rw [lettered, Fragment.IsWritten, signedIndex, code_charAt rfl, Expr.code_name]
  | fromEnd =>
    refine ⟨_, hgives.through₂ ((h.index rfl).gives_negated (by decide))
      (fun x i => .value (x ++ ".slice(" ++ i ++ ").charAt(0)") Order.functionCall) fun _ _ _ => rfl, fun n => ?_⟩
    rw [lettered, Fragment.IsWritten, signedIndex, code_charAt rfl, code_sliced rfl, Expr.code_name, code_zero]
    exact String.toList_injective (by simp)

end Block
end Blockwright
