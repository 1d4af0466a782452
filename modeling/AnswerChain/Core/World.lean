import Mathlib.Logic.Function.Basic
import AnswerChain.Core.Node
import AnswerChain.Python.Text

namespace AnswerChain.Core

open AnswerChain.Python

structure Decimal where
  digits : Nat
  scale : Nat
  deriving DecidableEq, Repr

structure Request where
  model : String
  temperature : Decimal
  input : String
  instructions : Option String
  previousResponseId : Option String
  deriving DecidableEq, Repr

inductive PyError
  | attributeError
  | keyError
  | typeError
  | clientError
  | osError
  deriving DecidableEq, Repr

/-- What the program learns from outside, by how many times it has asked before: the clock, the
completion service, and whether a file write succeeds; and whether `os.makedirs` can make a folder.
The clock reads whole seconds, which a `float` holds exactly. -/
structure Env where
  clock : Nat → Nat
  clock_lt : ∀ k, clock k < Nat.pow 2 53
  client : Nat → Request → Option Response
  canWrite : Nat → String → Bool
  canMakedirs : String → Bool

def Env.Answers (E : Env) : Prop := ∀ k req, (E.client k req).isSome

def Env.Writes (E : Env) : Prop := ∀ k path, E.canWrite k path = true

inductive Event
  | request (node : Nat) (req : Request) (resp : Response)
  | callback (node : Nat)
  | write (path : String) (content : String)
  deriving DecidableEq, Repr

def Event.isDispatch : Event → Bool
  | .write _ _ => false
  | _ => true

def dispatchEvents (evs : List Event) : List Event := evs.filter Event.isDispatch

/-- One process: the attributes of the nodes, the files by the file each path names, the
class-level `Question.threads` map, how often clock, service and file system were used, and the
log of what was sent and written. -/
structure World where
  store : Nat → NodeState
  files : Bool × List (List Char) → Option String
  threads : List (String × Nat)
  reads : Nat
  calls : Nat
  writes : Nat
  log : List Event

abbrev Eff := EStateM PyError World

section

variable (E : Env)

def time : Eff Nat := fun w => .ok (E.clock w.reads) { w with reads := w.reads + 1 }

/-- `client.responses.create(**params)`, sent for `node`. -/
def create (node : Nat) (req : Request) : Eff Response := fun w =>
  match E.client w.calls req with
  | some r => .ok r { w with calls := w.calls + 1, log := w.log ++ [.request node req r] }
  | none => .error .clientError { w with calls := w.calls + 1 }

/-- `with open(path, "w") as outfile: outfile.write(content)`. -/
def writeFile (path content : String) : Eff Unit := fun w =>
  if E.canWrite w.writes path then
    .ok () { w with files := Function.update w.files (fileKey path) (some content),
                    writes := w.writes + 1, log := w.log ++ [.write path content] }
  else .error .osError { w with writes := w.writes + 1 }

/-- `os.makedirs(folder, exist_ok=True)`. -/
def makedirs (folder : String) : Eff Unit := fun w =>
  if E.canMakedirs folder then .ok () w else .error .osError w

end

def getStore : Eff (Nat → NodeState) := fun w => .ok w.store w

def getNode (n : Nat) : Eff NodeState := fun w => .ok (w.store n) w

def getThreads : Eff (List (String × Nat)) := fun w => .ok w.threads w

def setNode (n : Nat) (f : NodeState → NodeState) : Eff Unit := fun w =>
  .ok () { w with store := Function.update w.store n (f (w.store n)) }

def logEvent (e : Event) : Eff Unit := fun w => .ok () { w with log := w.log ++ [e] }

def modifyThreads (f : List (String × Nat) → List (String × Nat)) : Eff Unit := fun w =>
  .ok () { w with threads := f w.threads }

def liftExcept {α : Type} : Except PyError α → Eff α
  | .ok a => pure a
  | .error e => throw e

def returned {α : Type} : EStateM.Result PyError World α → Bool
  | .ok _ _ => true
  | .error _ _ => false

def finalWorld {α : Type} : EStateM.Result PyError World α → World
  | .ok _ w => w
  | .error _ w => w

theorem eq_ok_finalWorld {x : EStateM.Result PyError World Unit} (h : returned x = true) :
    x = .ok () (finalWorld x) := by
  cases x with
  | ok _ _ => rfl
  | error _ _ => cases h

def loggedText (evs : List Event) (n : Nat) : Option String :=
  evs.reverse.findSome? fun
    | .request m _ r => if m = n then some r.outputText else none
    | _ => none

section

variable {α β : Type} (E : Env) (w : World)

@[simp] theorem bind_run (x : Eff α) (f : α → Eff β) :
    (x >>= f) w = match x w with
      | .ok a w' => f a w'
      | .error e w' => .error e w' := by
  show EStateM.bind x f w = _
  unfold EStateM.bind; cases x w <;> rfl

@[simp] theorem map_run (x : Eff α) (f : α → β) :
    (f <$> x) w = match x w with
      | .ok a w' => .ok (f a) w'
      | .error e w' => .error e w' := by
  show EStateM.map f x w = _
  unfold EStateM.map; cases x w <;> rfl

@[simp] theorem discard_run (x : Eff α) :
    (discard x : Eff PUnit) w = match x w with
      | .ok _ w' => .ok () w'
      | .error e w' => .error e w' := by
  show EStateM.map _ x w = _
  unfold EStateM.map; cases x w <;> rfl

@[simp] theorem pure_run (a : α) : (pure a : Eff α) w = .ok a w := rfl

@[simp] theorem throw_run (e : PyError) : (throw e : Eff α) w = .error e w := rfl

@[simp] theorem time_run : time E w = .ok (E.clock w.reads) { w with reads := w.reads + 1 } := rfl

@[simp] theorem makedirs_run (folder : String) :
    makedirs E folder w = if E.canMakedirs folder then .ok () w else .error .osError w := rfl

@[simp] theorem getStore_run : getStore w = .ok w.store w := rfl

@[simp] theorem getNode_run (n : Nat) : getNode n w = .ok (w.store n) w := rfl

@[simp] theorem getThreads_run : getThreads w = .ok w.threads w := rfl

@[simp] theorem setNode_run (n : Nat) (f : NodeState → NodeState) :
    setNode n f w = .ok () { w with store := Function.update w.store n (f (w.store n)) } := rfl

@[simp] theorem logEvent_run (e : Event) : logEvent e w = .ok () { w with log := w.log ++ [e] } :=
  rfl

@[simp] theorem modifyThreads_run (f : List (String × Nat) → List (String × Nat)) :
    modifyThreads f w = .ok () { w with threads := f w.threads } := rfl

@[simp] theorem liftExcept_ok (a : α) : liftExcept (.ok a : Except PyError α) = pure a := rfl

theorem bind_eq_ok {x : Eff α} {f : α → Eff β} {b : β} {w' : World} (h : (x >>= f) w = .ok b w') :
    ∃ a v, x w = .ok a v ∧ f a v = .ok b w' := by
  rw [bind_run] at h
  split at h
  · exact ⟨_, _, ‹_›, h⟩
  · cases h

theorem discard_eq_ok {x : Eff α} {w' : World} (h : (discard x : Eff PUnit) w = .ok () w') :
    ∃ a, x w = .ok a w' := by
  rw [discard_run] at h
  split at h
  · cases h; exact ⟨_, ‹_›⟩
  · cases h

theorem bind_eq_ok_of {x : Eff α} {f : α → Eff β} {a : α} {b : β} {v u : World}
    (h1 : x w = .ok a v) (h2 : f a v = .ok b u) : (x >>= f) w = .ok b u := by
  simp [h1, h2]

theorem discard_eq_ok_finalWorld {x : Eff α} (h : returned (x w) = true) :
    (discard x : Eff PUnit) w = .ok () (finalWorld (x w)) := by
  rw [discard_run]
  revert h
  cases x w <;> simp [returned, finalWorld]

theorem forM_cons_eq_ok {f : α → Eff PUnit} {a : α} {l : List α} {v u : World}
    (h1 : f a w = .ok () v) (h2 : l.forM f v = .ok () u) : (a :: l).forM f w = .ok () u := by
  simp [List.forM_cons', h1, h2]

theorem writeFile_eq_ok {path content : String} {u : Unit} {w' : World}
    (h : writeFile E path content w = .ok u w') :
    w' = { w with files := Function.update w.files (fileKey path) (some content),
                  writes := w.writes + 1, log := w.log ++ [.write path content] } := by
  unfold writeFile at h
  split at h
  · cases h; rfl
  · cases h

theorem create_run_of_client {node : Nat} {req : Request} {r : Response}
    (h : E.client w.calls req = some r) :
    create E node req w =
      .ok r { w with calls := w.calls + 1, log := w.log ++ [.request node req r] } := by
  simp [create, h]

theorem writeFile_run_of_writes (hw : E.Writes) (path content : String) :
    writeFile E path content w =
      .ok () { w with files := Function.update w.files (fileKey path) (some content),
                      writes := w.writes + 1, log := w.log ++ [.write path content] } := by
  simp [writeFile, hw w.writes path]

end

structure Frame where
  rel : World → World → Prop
  refl : ∀ w, rel w w
  trans : ∀ {u v w}, rel u v → rel v w → rel u w

def Frame.Keeps (fr : Frame) {α : Type} (x : Eff α) : Prop := ∀ w, fr.rel w (finalWorld (x w))

namespace Frame.Keeps

variable {fr : Frame} {α β : Type}

theorem of_pure (a : α) : fr.Keeps (pure a : Eff α) := fun w => fr.refl w

theorem of_throw (e : PyError) : fr.Keeps (throw e : Eff α) := fun w => fr.refl w

theorem of_bind {x : Eff α} {f : α → Eff β} (hx : fr.Keeps x) (hf : ∀ a, fr.Keeps (f a)) :
    fr.Keeps (x >>= f) := by
  intro w
  have := hx w
  rw [bind_run]
  cases h : x w <;> simp only [h, finalWorld] at this ⊢
  · exact fr.trans this (hf _ _)
  · exact this

theorem of_discard {x : Eff α} (hx : fr.Keeps x) : fr.Keeps (discard x : Eff PUnit) := by
  intro w
  have := hx w
  rw [discard_run]
  cases h : x w <;> simpa only [h, finalWorld] using this

theorem of_map {x : Eff α} (f : α → β) (hx : fr.Keeps x) : fr.Keeps (f <$> x) := by
  intro w
  have := hx w
  rw [map_run]
  cases h : x w <;> simpa only [h, finalWorld] using this

theorem of_forM {f : α → Eff PUnit} (hf : ∀ a, fr.Keeps (f a)) :
    ∀ l : List α, fr.Keeps (l.forM f)
  | [] => of_pure _
  | a :: l => by rw [List.forM_cons']; exact of_bind (hf a) fun _ => of_forM hf l

theorem of_forM_mem {f : α → Eff PUnit} :
    ∀ l : List α, (∀ a ∈ l, fr.Keeps (f a)) → fr.Keeps (l.forM f)
  | [], _ => of_pure _
  | a :: l, hf => by
    rw [List.forM_cons']
    exact of_bind (hf a (List.mem_cons_self _ _)) fun _ =>
      of_forM_mem l fun b hb => hf b (List.mem_cons_of_mem _ hb)

theorem of_mapM {f : α → Eff β} (hf : ∀ a, fr.Keeps (f a)) :
    ∀ l : List α, fr.Keeps (l.mapM f)
  | [] => by rw [List.mapM_nil]; exact of_pure _
  | a :: l => by
    rw [List.mapM_cons]
    exact of_bind (hf a) fun _ => of_bind (of_mapM hf l) fun _ => of_pure _

theorem of_liftExcept (x : Except PyError α) : fr.Keeps (liftExcept x) := by
  cases x with
  | ok a => exact of_pure a
  | error e => exact of_throw e

theorem of_getStore : fr.Keeps getStore := fun w => fr.refl w

theorem of_getNode (n : Nat) : fr.Keeps (getNode n) := fun w => fr.refl w

theorem of_getThreads : fr.Keeps getThreads := fun w => fr.refl w

end Frame.Keeps

@[simp] theorem dispatchEvents_nil : dispatchEvents [] = [] := rfl

@[simp] theorem dispatchEvents_append (a b : List Event) :
    dispatchEvents (a ++ b) = dispatchEvents a ++ dispatchEvents b := List.filter_append _ _

@[simp] theorem loggedText_nil (n : Nat) : loggedText [] n = none := rfl

theorem loggedText_append (a b : List Event) (n : Nat) :
    loggedText (a ++ b) n = (loggedText b n).or (loggedText a n) := by
  simp only [loggedText, List.reverse_append, List.findSome?_append]

@[simp] theorem loggedText_write (path content : String) (n : Nat) :
    loggedText [.write path content] n = none := rfl

@[simp] theorem loggedText_callback (m n : Nat) : loggedText [.callback m] n = none := rfl

@[simp] theorem loggedText_request (m : Nat) (req : Request) (r : Response) (n : Nat) :
    loggedText [.request m req r] n = if m = n then some r.outputText else none := by
  by_cases h : m = n <;> simp [loggedText, List.findSome?_cons, h]

@[simp] theorem dispatchEvents_cons (e : Event) (evs : List Event) :
    dispatchEvents (e :: evs) = if e.isDispatch then e :: dispatchEvents evs else dispatchEvents evs := by
  simp only [dispatchEvents, List.filter_cons]

end AnswerChain.Core
