import Mathlib.Data.List.Chain
import Mathlib.Data.List.GetD
import AnswerChain.Python.Json

namespace AnswerChain.Core

open AnswerChain.Python

def DEFAULT_MODEL : String := "gpt-4.5-preview"

/-- The attributes `Node.__init__` sets that nothing assigns again. -/
structure NodeInfo where
  id : String
  title : String
  model : String
  question : String
  isInstruction : Bool
  parent : Option Nat
  deriving DecidableEq, Repr, Inhabited

def NodeInfo.new (id title question : String) (parent : Option Nat := none)
    (isInstruction : Bool := false) (model : String := DEFAULT_MODEL) : NodeInfo :=
  ⟨id, title, model, question, isInstruction, parent⟩

structure Response where
  id : String
  outputText : String
  deriving DecidableEq, Repr, Inhabited

/-- A number a node holds: the `int` that `Node.__init__` sets, or a `float` that `callnode` takes
from `time.time()`. Python compares the two by value. -/
inductive PyNum
  | int (i : Int)
  | float (x : Int)
  deriving DecidableEq, Repr

def PyNum.val : PyNum → Int
  | .int i => i
  | .float x => x

def PyNum.toJson : PyNum → Json
  | .int i => .int i
  | .float x => .float x

/-- The attributes `callnode` assigns. `response` is `none` while the attribute does not exist. -/
structure NodeState where
  responseContent : String
  response : Option Response
  lastAnswered : PyNum
  timeTaken : PyNum
  deriving DecidableEq, Repr

def NodeState.init : NodeState := ⟨"", none, .int (-1), .int 0⟩

/-- The nodes built so far, in the order they were built. A node's parent is an earlier node, so
every chain of parents ends. -/
structure Forest where
  nodes : List NodeInfo
  parent_lt : ∀ {n p : Nat}, (nodes.getD n default).parent = some p → p < n

namespace Forest

def empty : Forest := ⟨[], fun h => by simp at h⟩

variable (F : Forest)

def get (n : Nat) : NodeInfo := F.nodes.getD n default

theorem get_parent_lt {n p : Nat} (h : (F.get n).parent = some p) : p < n := F.parent_lt h

theorem getD_push (l : List NodeInfo) (info : NodeInfo) (n : Nat) :
    (l ++ [info]).getD n default = if n = l.length then info else l.getD n default := by
  rcases Nat.lt_trichotomy n l.length with hn | rfl | hn
  · rw [List.getD_append _ _ _ _ hn, if_neg (by omega)]
  · rw [List.getD_append_right _ _ _ _ le_rfl, Nat.sub_self, List.getD_cons_zero, if_pos rfl]
  · rw [if_neg (by omega), List.getD_eq_default _ _ (by simp; omega),
      List.getD_eq_default _ _ hn.le]

def push (info : NodeInfo) (h : ∀ p, info.parent = some p → p < F.nodes.length) : Forest where
  nodes := F.nodes ++ [info]
  parent_lt {n p} hp := by
    rw [getD_push] at hp
    split at hp
    · subst_vars; exact h p hp
    · exact F.parent_lt hp

theorem none_parent_lt {n : Nat} : ∀ p, (none : Option Nat) = some p → p < n :=
  fun _ hp => nomatch hp

theorem some_parent_lt {r n : Nat} (h : r < n) : ∀ p, some r = some p → p < n :=
  fun _ hp => Option.some.inj hp ▸ h

@[simp] theorem length_push (info : NodeInfo) (h) :
    (F.push info h).nodes.length = F.nodes.length + 1 := by
  simp [push]

theorem get_push (info : NodeInfo) (h) (n : Nat) :
    (F.push info h).get n = if n = F.nodes.length then info else F.get n :=
  getD_push F.nodes info n

def pathFrom : Nat → Nat → List Nat
  | 0, _ => []
  | fuel + 1, n => n :: match (F.get n).parent with
    | none => []
    | some p => pathFrom fuel p

def path (n : Nat) : List Nat := F.pathFrom (n + 1) n

theorem pathFrom_eq {fuel m n : Nat} (hf : n < fuel) (hm : n < m) :
    F.pathFrom fuel n = F.pathFrom m n := by
  induction fuel generalizing m n with
  | zero => omega
  | succ fuel ih =>
    obtain ⟨k, rfl⟩ : ∃ k, m = k + 1 := ⟨m - 1, by omega⟩
    cases hp : (F.get n).parent with
    | none => simp [pathFrom, hp]
    | some p =>
      have := F.get_parent_lt hp
      simp only [pathFrom, hp, @ih k p (by omega) (by omega)]

theorem path_of_parent_none {n : Nat} (h : (F.get n).parent = none) : F.path n = [n] := by
  simp [path, pathFrom, h]

theorem path_of_parent_some {n p : Nat} (h : (F.get n).parent = some p) :
    F.path n = n :: F.path p := by
  have := F.get_parent_lt h
  show F.pathFrom (n + 1) n = _
  simp only [pathFrom, h]
  exact congrArg _ (F.pathFrom_eq (by omega) (by omega))

@[elab_as_elim]
theorem induction {motive : Nat → Prop} (n : Nat)
    (root : ∀ n, (F.get n).parent = none → motive n)
    (child : ∀ n p, (F.get n).parent = some p → motive p → motive n) : motive n := by
  induction n using Nat.strong_induction_on with
  | _ n ih =>
    cases h : (F.get n).parent with
    | none => exact root n h
    | some p => exact child n p h (ih p (F.get_parent_lt h))

theorem path_head (n : Nat) : ∃ l, F.path n = n :: l := by
  cases h : (F.get n).parent with
  | none => exact ⟨[], F.path_of_parent_none h⟩
  | some p => exact ⟨_, F.path_of_parent_some h⟩

theorem mem_path (n : Nat) : n ∈ F.path n := by
  obtain ⟨l, h⟩ := F.path_head n
  exact h ▸ List.mem_cons_self _ _

theorem le_of_mem_path {n m : Nat} (h : m ∈ F.path n) : m ≤ n := by
  induction n using F.induction with
  | root n hn => simp [F.path_of_parent_none hn] at h; omega
  | child n p hn ih =>
    have := F.get_parent_lt hn
    rw [F.path_of_parent_some hn, List.mem_cons] at h
    rcases h with rfl | h
    · rfl
    · exact (ih h).trans this.le

theorem path_nodup (n : Nat) : (F.path n).Nodup := by
  induction n using F.induction with
  | root n hn => simp [F.path_of_parent_none hn]
  | child n p hn ih =>
    rw [F.path_of_parent_some hn, List.nodup_cons]
    exact ⟨fun h => absurd (F.le_of_mem_path h) (by have := F.get_parent_lt hn; omega), ih⟩

theorem path_chain (n : Nat) : (F.path n).Chain' fun a b => (F.get a).parent = some b := by
  induction n using F.induction with
  | root n hn => simp [F.path_of_parent_none hn]
  | child n p hn ih =>
    obtain ⟨l, hl⟩ := F.path_head p
    rw [F.path_of_parent_some hn, hl, List.chain'_cons]
    exact ⟨hn, hl ▸ ih⟩

def root (n : Nat) : Nat := (F.path n).getLast (by obtain ⟨l, h⟩ := F.path_head n; simp [h])

theorem path_of_consecutive {r : Nat} (h0 : (F.get r).parent = none) (k : Nat)
    (h : ∀ i, i < k → (F.get (r + i + 1)).parent = some (r + i)) :
    F.path (r + k) = (List.range (k + 1)).reverse.map (r + ·) := by
  induction k with
  | zero => simp [F.path_of_parent_none h0, List.range_succ]
  | succ k ih =>
    rw [← Nat.add_assoc, F.path_of_parent_some (h k (by omega)), ih fun i hi => h i (by omega)]
    simp [List.range_succ, Nat.add_assoc]

theorem root_eq_of_path {n r : Nat} {l : List Nat} (h : F.path n = l) (hl : l.getLast? = some r) :
    F.root n = r := by
  subst h
  simpa [root, List.getLast?_eq_getLast (F.path n) (by obtain ⟨l, h⟩ := F.path_head n; simp [h])]
    using hl

theorem get_extend {G : Forest} (h : F.nodes <+: G.nodes) {n : Nat} (hn : n < F.nodes.length) :
    G.get n = F.get n := by
  obtain ⟨l, hl⟩ := h
  rw [get, ← hl]
  exact List.getD_append _ _ _ _ hn

theorem path_extend {G : Forest} (h : F.nodes <+: G.nodes) {n : Nat}
    (hn : n < F.nodes.length) : G.path n = F.path n := by
  induction n using F.induction with
  | root n hp =>
    rw [F.path_of_parent_none hp, G.path_of_parent_none (by rw [F.get_extend h hn, hp])]
  | child n p hp ih =>
    have := F.get_parent_lt hp
    rw [F.path_of_parent_some hp, G.path_of_parent_some (by rw [F.get_extend h hn, hp]),
      ih (by omega)]

theorem root_extend {G : Forest} (h : F.nodes <+: G.nodes) {n : Nat}
    (hn : n < F.nodes.length) : G.root n = F.root n :=
  G.root_eq_of_path (F.path_extend h hn) (List.getLast?_eq_getLast _ _)

def toJson (st : Nat → NodeState) (n : Nat) : Json :=
  .obj [("model", .str (F.get n).model), ("title", .str (F.get n).title),
    ("question", .str (F.get n).question),
    ("parentid", match (F.get n).parent with
      | some p => .str (F.get p).id
      | none => .null),
    ("is_instruction", .bool (F.get n).isInstruction), ("last_answered", (st n).lastAnswered.toJson),
    ("time_taken", (st n).timeTaken.toJson), ("id", .str (F.get n).id),
    ("response", .str (st n).responseContent)]

end Forest

end AnswerChain.Core
