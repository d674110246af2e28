/-
Module: CellScript.Proofs.ScopeStack
Purpose: The flat list of variables behaves as a stack of scopes, one finite map for each block.
  Variables are kept newest first, so those of an inner block stand before those of the blocks
  around it. The list is then the levels of the stack put end to end (`Layered`), and every
  operation works on the levels as it does on the maps.
Main exports: ScopeStack, ScopeOp, Scopes.replies, ScopeStack.replies, Layered,
  scopes_replies_eq_stack_replies
-/
import CellScript.Run.Scopes
import Std.Data.TreeMap

namespace CellScript

open Std

/-- The scopes of the open blocks, the innermost first. -/
abbrev ScopeStack := List (TreeMap Nat Value)

namespace ScopeStack

/-- Open a block: its scope is empty. -/
def enter (st : ScopeStack) : ScopeStack :=
  ∅ :: st

/-- Keep the lowest `depth + 1` scopes, with empty ones on top where there are fewer. -/
def exit (st : ScopeStack) (depth : Nat) : ScopeStack :=
  List.replicate (depth + 1 - st.length) ∅ ++ st.drop (st.length - (depth + 1))

/-- Set a variable of the innermost scope. -/
def assign (st : ScopeStack) (index : Nat) (value : Value) : ScopeStack :=
  st.modifyHead fun scope => scope.insert index value

/-- The variable of the innermost scope that has one with this index. -/
def get? (st : ScopeStack) (index : Nat) : Option Value :=
  st.findSome? fun scope => scope[index]?

/-- The number of variables in all scopes. -/
def size (st : ScopeStack) : Nat :=
  st.foldr (fun scope count => scope.size + count) 0

end ScopeStack

/-! ### Sequences of operations -/

/-- What can be asked of variables in scopes. -/
inductive ScopeOp where
  | enter
  | exit (depth : Nat)
  | assign (index : Nat) (value : Value)
  | get (index : Nat)
deriving DecidableEq, Repr

/-- The answer to an operation. Entering a block answers the depth around it. -/
inductive ScopeAnswer where
  | done
  | depth (n : Nat)
  | value (v : Option Value)
deriving DecidableEq, Repr

/-- What is seen of an operation: its answer, and the number of open scopes and of variables after
it. -/
structure ScopeReply where
  answer : ScopeAnswer
  levels : Nat
  size : Nat
  isEmpty : Bool
deriving DecidableEq, Repr

/-- One operation on the flat list. -/
def Scopes.step (s : Scopes) : ScopeOp → ScopeAnswer × Scopes
  | .enter => (.depth s.depth, s.enter)
  | .exit depth => (.done, s.exit depth)
  | .assign index value => (.done, s.assign index value)
  | .get index => (.value (s.get? index), s)

/-- The replies to operations on the flat list. -/
def Scopes.replies (s : Scopes) : List ScopeOp → List ScopeReply
  | [] => []
  | op :: ops =>
      let (answer, s) := s.step op
      ⟨answer, s.depth + 1, s.size, s.isEmpty⟩ :: s.replies ops

/-- One operation on a stack. The depth of a block is the number of scopes below its own. -/
def ScopeStack.step (st : ScopeStack) : ScopeOp → ScopeAnswer × ScopeStack
  | .enter => (.depth (st.length - 1), st.enter)
  | .exit depth => (.done, st.exit depth)
  | .assign index value => (.done, st.assign index value)
  | .get index => (.value (st.get? index), st)

/-- The replies to operations on a stack. -/
def ScopeStack.replies (st : ScopeStack) : List ScopeOp → List ScopeReply
  | [] => []
  | op :: ops =>
      let (answer, st) := st.step op
      ⟨answer, st.length, st.size, st.size == 0⟩ :: ScopeStack.replies st ops

/-! ### One level -/

/-- The bindings of one block are those of a map: all have the block's depth, an index is looked up
alike, and there are equally many. -/
structure IsLevel (bs : List Binding) (depth : Nat) (scope : TreeMap Nat Value) : Prop where
  depth_eq : ∀ b ∈ bs, b.depth = depth
  lookup : ∀ i, scope[i]? = (bs.find? fun b => b.index == i).map Binding.value
  size_eq : scope.size = bs.length

namespace IsLevel

theorem empty (depth : Nat) : IsLevel [] depth ∅ where
  depth_eq := by simp
  lookup := by simp
  size_eq := by simp

/-- An index is in the map exactly if some binding has it. -/
theorem contains_iff {bs : List Binding} {depth : Nat} {scope : TreeMap Nat Value}
    (h : IsLevel bs depth scope) (i : Nat) :
    scope.contains i = true ↔ bs.any (fun b => b.index == i) = true := by
  rw [TreeMap.contains_eq_isSome_getElem?, h.lookup]
  simp

/-- A variable that the block lacks is put in front. -/
theorem cons {bs : List Binding} {depth : Nat} {scope : TreeMap Nat Value}
    (h : IsLevel bs depth scope) {i : Nat} (hi : ¬ bs.any (fun b => b.index == i) = true)
    (v : Value) : IsLevel (⟨i, v, depth⟩ :: bs) depth (scope.insert i v) where
  depth_eq := by
    intro b hb
    rcases List.mem_cons.1 hb with rfl | hb
    · rfl
    · exact h.depth_eq b hb
  lookup := by
    intro j
    rw [TreeMap.getElem?_insert, List.find?_cons]
    by_cases hij : i = j
    · simp [hij]
    · have hne : (i == j) = false := by simpa using hij
      simp [hij, hne, h.lookup]
  size_eq := by
    have hmem : ¬ scope.contains i = true := fun hm => hi ((h.contains_iff i).1 hm)
    rw [TreeMap.size_insert, if_neg hmem, h.size_eq, List.length_cons]

/-- A variable that the block has is changed in its place. -/
theorem update {bs : List Binding} {depth : Nat} {scope : TreeMap Nat Value}
    (h : IsLevel bs depth scope) {i : Nat} (hi : bs.any (fun b => b.index == i) = true)
    (v : Value) :
    IsLevel (bs.map fun b => if b.index == i then { b with value := v } else b) depth
      (scope.insert i v) where
  depth_eq := by
    intro b hb
    obtain ⟨a, ha, rfl⟩ := List.mem_map.1 hb
    have hdepth := h.depth_eq a ha
    split
    · exact hdepth
    · exact hdepth
  lookup := by
    intro j
    have hcomp : ((fun b : Binding => b.index == j) ∘
        fun b => if b.index == i then { b with value := v } else b) = fun b => b.index == j := by
      funext b
      simp only [Function.comp]
      split <;> rfl
    rw [TreeMap.getElem?_insert, List.find?_map, hcomp, Option.map_map]
    by_cases hij : i = j
    · subst hij
      obtain ⟨a, ha⟩ : ∃ a, bs.find? (fun b => b.index == i) = some a := by
        rw [← Option.isSome_iff_exists, List.find?_isSome]
        simpa using hi
      have hai : a.index = i := by simpa using List.find?_some ha
      simp [ha, hai]
    · have hcmp : ¬ compare i j = .eq := by simpa using hij
      rw [if_neg hcmp, h.lookup]
      cases hf : bs.find? fun b => b.index == j with
      | none => rfl
      | some a =>
          have haj : a.index = j := by simpa using List.find?_some hf
          have hai : ¬ a.index = i := fun hai => hij (hai.symm.trans haj)
          simp [hai]
  size_eq := by
    have hmem : scope.contains i = true := (h.contains_iff i).2 hi
    rw [TreeMap.size_insert, if_pos hmem, h.size_eq, List.length_map]

end IsLevel

/-! ### The levels of a list -/

/-- A list of bindings is the levels of a stack, one after the other. The depth of a level is the
number of those below it. -/
inductive Layered : List Binding → ScopeStack → Prop where
  | nil : Layered [] []
  | cons {bs rest : List Binding} {scope : TreeMap Nat Value} {st : ScopeStack} :
      IsLevel bs st.length scope → Layered rest st → Layered (bs ++ rest) (scope :: st)

namespace Layered

/-- Every binding stands lower than the stack is high. -/
theorem depth_lt {bs : List Binding} {st : ScopeStack} (h : Layered bs st) :
    ∀ b ∈ bs, b.depth < st.length := by
  induction h with
  | nil => simp
  | cons hlevel _ ih =>
      intro b hb
      rcases List.mem_append.1 hb with hb | hb
      · simp [hlevel.depth_eq b hb]
      · exact Nat.lt_succ_of_lt (ih b hb)

theorem length_eq_size {bs : List Binding} {st : ScopeStack} (h : Layered bs st) :
    bs.length = st.size := by
  induction h with
  | nil => rfl
  | cons hlevel _ ih => simpa [ScopeStack.size, hlevel.size_eq] using ih

/-- The first binding with an index is the one of the innermost scope. -/
theorem find?_eq_get? {bs : List Binding} {st : ScopeStack} (h : Layered bs st) (i : Nat) :
    (bs.find? fun b => b.index == i).map Binding.value = st.get? i := by
  induction h with
  | nil => rfl
  | @cons bs rest scope st hlevel _ ih =>
      rw [ScopeStack.get?, List.findSome?_cons, hlevel.lookup, List.find?_append]
      cases bs.find? fun b => b.index == i with
      | none => simpa [ScopeStack.get?] using ih
      | some b => rfl

/-- A block that has just been opened has no variables. -/
theorem push {bs : List Binding} {st : ScopeStack} (h : Layered bs st) : Layered bs (∅ :: st) := by
  have hempty : IsLevel [] st.length ∅ := IsLevel.empty st.length
  simpa using cons hempty h

/-- Empty scopes may be put on top. -/
theorem replicate_append {bs : List Binding} {st : ScopeStack} (h : Layered bs st) (n : Nat) :
    Layered bs (List.replicate n ∅ ++ st) := by
  induction n with
  | zero => exact h
  | succ n ih => exact ih.push

/-- Dropping the bindings above a depth drops the scopes above it. -/
theorem exit {bs : List Binding} {st : ScopeStack} (h : Layered bs st) (depth : Nat) :
    Layered (bs.filter fun b => b.depth ≤ depth) (st.exit depth) := by
  induction h with
  | nil => simpa [ScopeStack.exit] using nil.replicate_append (depth + 1)
  | @cons bs rest scope st hlevel hrest ih =>
      have hlayered := cons hlevel hrest
      by_cases hd : st.length ≤ depth
      · -- no level is above the depth, so only empty scopes are added
        have hkeep : ∀ b ∈ bs ++ rest, b.depth ≤ depth := by
          intro b hb
          have hlt := hlayered.depth_lt b hb
          rw [List.length_cons] at hlt
          omega
        have hdrop : (scope :: st).length - (depth + 1) = 0 := by
          rw [List.length_cons]
          omega
        rw [List.filter_eq_self.2 (by simpa using hkeep), ScopeStack.exit, hdrop, List.drop_zero]
        exact hlayered.replicate_append _
      · -- the top level goes, and with it as much as goes below it
        have hgone : bs.filter (fun b => b.depth ≤ depth) = [] := by
          rw [List.filter_eq_nil_iff]
          intro b hb
          simpa [hlevel.depth_eq b hb] using hd
        have hexit : ScopeStack.exit (scope :: st) depth = st.exit depth := by
          have hpad : (scope :: st).length - (depth + 1) = st.length - (depth + 1) + 1 := by
            rw [List.length_cons]
            omega
          have hnone : depth + 1 - (scope :: st).length = depth + 1 - st.length := by
            rw [List.length_cons]
            omega
          rw [ScopeStack.exit, ScopeStack.exit, hpad, hnone, List.drop_succ_cons]
        rw [List.filter_append, hgone, List.nil_append, hexit]
        exact ih

end Layered

theorem ScopeStack.length_exit (st : ScopeStack) (depth : Nat) :
    (st.exit depth).length = depth + 1 := by
  simp only [ScopeStack.exit, List.length_append, List.length_replicate, List.length_drop]
  omega

/-! ### The simulation -/

/-- A flat list and a stack that stand for the same variables. -/
structure Represents (s : Scopes) (st : ScopeStack) : Prop where
  length_eq : st.length = s.depth + 1
  layered : Layered s.bindings st

namespace Represents

theorem new : Represents {} [∅] where
  length_eq := rfl
  layered := Layered.nil.push

theorem enter {s : Scopes} {st : ScopeStack} (h : Represents s st) :
    Represents s.enter st.enter where
  length_eq := by simp [Scopes.enter, ScopeStack.enter, h.length_eq]
  layered := h.layered.push

theorem exit {s : Scopes} {st : ScopeStack} (h : Represents s st) (depth : Nat) :
    Represents (s.exit depth) (st.exit depth) where
  length_eq := st.length_exit depth
  layered := h.layered.exit depth

/-- Only the top level holds variables of the current block. -/
theorem owns_eq {s : Scopes} {bs rest : List Binding} {st : ScopeStack} {scope : TreeMap Nat Value}
    (hlen : st.length = s.depth) (hlevel : IsLevel bs st.length scope) (hrest : Layered rest st)
    (index : Nat) :
    (∀ b ∈ bs, s.owns index b = (b.index == index)) ∧ ∀ b ∈ rest, s.owns index b = false := by
  constructor
  · intro b hb
    simp [Scopes.owns, hlevel.depth_eq b hb, hlen]
  · intro b hb
    have hlt := hrest.depth_lt b hb
    have hne : (b.depth == s.depth) = false := by
      simp only [beq_eq_false_iff_ne]
      omega
    simp [Scopes.owns, hne]

theorem assign {s : Scopes} {st : ScopeStack} (h : Represents s st) (index : Nat)
    (value : Value) : Represents (s.assign index value) (st.assign index value) := by
  obtain ⟨hlen, hlayered⟩ := h
  generalize hbs : s.bindings = bindings at hlayered
  cases hlayered with
  | nil => simp at hlen
  | @cons bs rest scope st hlevel hrest =>
      have hdepth : st.length = s.depth := by simpa using hlen
      obtain ⟨hown, hother⟩ := owns_eq hdepth hlevel hrest index
      have hany : s.bindings.any (s.owns index) = bs.any fun b => b.index == index := by
        have hbelow : rest.any (s.owns index) = false := by simpa using hother
        rw [hbs, List.any_append, hbelow, Bool.or_false, Bool.eq_iff_iff, List.any_eq_true,
          List.any_eq_true]
        exact exists_congr fun b => and_congr_right fun hb => by rw [hown b hb]
      simp only [Scopes.assign, hany]
      split
      · rename_i hi
        have hmap : (s.bindings.map fun b => if s.owns index b then { b with value } else b) =
            bs.map (fun b => if b.index == index then { b with value } else b) ++ rest := by
          have htop : (bs.map fun b => if s.owns index b then { b with value } else b) =
              bs.map fun b => if b.index == index then { b with value } else b :=
            List.map_congr_left fun b hb => by rw [hown b hb]
          have hbelow : (rest.map fun b => if s.owns index b then { b with value } else b) =
              rest.map id :=
            List.map_congr_left fun b hb => by simp [hother b hb]
          rw [hbs, List.map_append, htop, hbelow, List.map_id]
        refine ⟨hlen, ?_⟩
        rw [hmap]
        exact .cons (hlevel.update hi value) hrest
      · rename_i hi
        refine ⟨hlen, ?_⟩
        rw [← hdepth, hbs]
        exact .cons (hlevel.cons hi value) hrest

/-- Equal answers to one operation, and what stands for the same variables after it. -/
theorem step {s : Scopes} {st : ScopeStack} (h : Represents s st) (op : ScopeOp) :
    (s.step op).1 = (st.step op).1 ∧ Represents (s.step op).2 (st.step op).2 := by
  cases op with
  | enter => exact ⟨by simp [Scopes.step, ScopeStack.step, h.length_eq], h.enter⟩
  | exit depth => exact ⟨rfl, h.exit depth⟩
  | assign index value => exact ⟨rfl, h.assign index value⟩
  | get index => exact ⟨congrArg ScopeAnswer.value (h.layered.find?_eq_get? index), h⟩

theorem isEmpty_eq {s : Scopes} {st : ScopeStack} (h : Represents s st) :
    s.isEmpty = (st.size == 0) := by
  rw [← h.layered.length_eq_size, Scopes.isEmpty]
  cases s.bindings with
  | nil => rfl
  | cons b bs => rfl

theorem replies {s : Scopes} {st : ScopeStack} (h : Represents s st) (ops : List ScopeOp) :
    s.replies ops = ScopeStack.replies st ops := by
  induction ops generalizing s st with
  | nil => rfl
  | cons op ops ih =>
      obtain ⟨hanswer, hnext⟩ := h.step op
      simp only [Scopes.replies, ScopeStack.replies]
      rw [hanswer, ← hnext.length_eq, Scopes.size, hnext.layered.length_eq_size, hnext.isEmpty_eq,
        ih hnext]

end Represents

/-- The flat list answers every sequence of operations as a stack of scopes does. -/
theorem scopes_replies_eq_stack_replies (ops : List ScopeOp) :
    Scopes.replies {} ops = ScopeStack.replies [∅] ops :=
  Represents.new.replies ops

end CellScript
