import AnswerChain.Core.Frames

namespace AnswerChain.Core

open AnswerChain.Python

namespace Question

variable (q : Question) (p : Project)

/-- `answer_for_project(project)` run through while no other thread steps: `none` is the return
after `Already answering`; otherwise the id is registered for `thread`, the thread it starts. -/
def answerForProject (thread : Nat) : Eff (Option String) := do
  let answerid := q.answerId p
  discard (liftExcept (q.leaf p.name))
  if dictHas (← getThreads) answerid then pure none
  else
    modifyThreads fun threads => dictSet threads answerid thread
    pure (some answerid)

def answerForProjects : List Project → Nat → Eff Unit
  | [], _ => pure ()
  | p :: ps, thread => do
    discard (q.answerForProject p thread)
    answerForProjects ps (thread + 1)

/-- `answer_for_all_projects()`: iterating `projects` while it is still `None` raises. -/
def answerForAllProjects (thread : Nat) : Eff Unit :=
  match q.projects with
  | none => throw .typeError
  | some ps => q.answerForProjects ps thread

end Question

def returnValue {α : Type} : EStateM.Result PyError World α → Option α
  | .ok a _ => some a
  | .error _ _ => none

theorem answerForProject_eq {q : Question} {p : Project} {leaf : Nat}
    (hleaf : q.leaf p.name = .ok leaf) (thread : Nat) (w : World) :
    q.answerForProject p thread w =
      if dictHas w.threads (q.answerId p) then .ok none w
      else .ok (some (q.answerId p))
        { w with threads := dictSet w.threads (q.answerId p) thread } := by
  simp only [Question.answerForProject, bind_run, discard_run, hleaf, liftExcept_ok, pure_run,
    getThreads_run]
  split <;> rfl

theorem addProject_leaf (q : Question) (p : Project) (n : Nat) (name : String)
    (h : name = p.name ∨ ∃ m, q.leaf name = .ok m) : ∃ m, (q.addProject p n).leaf name = .ok m := by
  by_cases hn : name = p.name
  · exact ⟨n, by simp [Question.addProject, Question.leaf, lookup_dictSet, hn]⟩
  · obtain ⟨m, hm⟩ := h.resolve_left hn
    refine ⟨m, ?_⟩
    unfold Question.leaf at hm ⊢
    split at hm <;> simp_all [Question.addProject, lookup_dictSet]

def threadsFrame : Frame := ⟨fun w w' => w'.threads = w.threads, fun _ => rfl, fun h h' => h'.trans h⟩

@[simp] theorem threadsFrame_rel (w w' : World) : threadsFrame.rel w w' ↔ w'.threads = w.threads :=
  Iff.rfl

abbrev KeepsThreads {α : Type} (x : Eff α) : Prop := threadsFrame.Keeps x

namespace KeepsThreads

theorem of_time (E : Env) : KeepsThreads (time E) := fun _ => rfl

theorem of_setNode (n : Nat) (f : NodeState → NodeState) : KeepsThreads (setNode n f) :=
  fun _ => rfl

theorem of_logEvent (e : Event) : KeepsThreads (logEvent e) := fun _ => rfl

theorem of_create (E : Env) (node : Nat) (req : Request) : KeepsThreads (create E node req) := by
  intro w
  unfold create
  split <;> rfl

theorem of_writeFile (E : Env) (path content : String) : KeepsThreads (writeFile E path content) := by
  intro w
  unfold writeFile
  split <;> rfl

theorem allowsRequests (E : Env) : threadsFrame.AllowsRequests E :=
  ⟨of_time E, of_create E, of_logEvent⟩

theorem allowsWrite (E : Env) (path : String) : threadsFrame.AllowsWrite E path :=
  of_writeFile E path

theorem of_oncomplete {q : Question} {E : Env} {F : Forest} {p : Project} (n : Nat) :
    KeepsThreads (q.oncomplete E F p n) :=
  oncomplete_keeps F (allowsWrite E _) (allowsWrite E _)

end KeepsThreads

section

variable {q : Question} {E : Env} {F : Forest} {p : Project}

open Frame.Keeps KeepsThreads

theorem answerFinished_threads {leaf : Nat} (hleaf : q.leaf p.name = .ok leaf) (w : World) :
    (finalWorld (q._answerFinished E F p w)).threads =
      if dictHas w.threads (q.answerId p) then dictDel w.threads (q.answerId p) else w.threads := by
  have hrest : KeepsThreads (((F.path leaf).forM fun n => do
      let st ← getStore
      writeFile E (q.nodeFile F p n) (st n).responseContent) >>= fun _ => q.saveAnswerMeta E F p) :=
    of_bind (of_forM (fun _ => of_bind of_getStore fun _ => of_writeFile E _ _) _) fun _ =>
      saveAnswerMeta_keeps F (allowsWrite E _)
  have := hrest { w with threads :=
    (if dictHas w.threads (q.answerId p) then dictDel w.threads (q.answerId p) else w.threads) }
  simp only [Question._answerFinished, bind_run, hleaf, liftExcept_ok, pure_run,
    modifyThreads_run] at this ⊢
  exact this

theorem answerForProject_threads {leaf : Nat} (hleaf : q.leaf p.name = .ok leaf) (w : World) :
    (finalWorld (q._answerForProject E F p w)).threads =
      if returned (callnode E F leaf (-1) (some (q.oncomplete E F p)) w) then
        (if dictHas w.threads (q.answerId p) then dictDel w.threads (q.answerId p) else w.threads)
      else w.threads := by
  have hk : KeepsThreads (callnode E F leaf (-1) (some (q.oncomplete E F p))) :=
    callnodeAlong_keeps F (of_time E) _ _ fun n _ =>
      answerNode_keeps F (allowsRequests E) (of_setNode n) fun f hf => by
        cases hf
        exact of_oncomplete n
  have hc := hk w
  simp only [Question._answerForProject, bind_run, hleaf, liftExcept_ok, pure_run, discard_run]
  cases h : callnode E F leaf (-1) (some (q.oncomplete E F p)) w with
  | ok r v =>
    simp only [h, finalWorld] at hc
    simp only [h, returned, if_true]
    rw [answerFinished_threads hleaf, hc]
  | error e v => simpa only [h, finalWorld, returned] using hc

end

namespace Sample

def failing : Env :=
  ⟨fun k => k % Nat.pow 2 53, fun _ => Nat.mod_lt _ (Nat.two_pow_pos 53), fun _ _ => none,
    fun _ _ => true, fun _ => true⟩

def afterCall : World := finalWorld (asked.answerForProject jobScheduler 0 world)

def afterFailure : World := finalWorld (asked._answerForProject failing chain jobScheduler afterCall)

end Sample

theorem answerForProject_blocked_after_error :
    returnValue (Sample.asked.answerForProject Sample.jobScheduler 0 Sample.world) =
        some (some (Sample.asked.answerId Sample.jobScheduler)) ∧
      returned (Sample.asked._answerForProject Sample.failing Sample.chain Sample.jobScheduler
        Sample.afterCall) = false ∧
      dictHas Sample.afterFailure.threads (Sample.asked.answerId Sample.jobScheduler) = true ∧
      returnValue (Sample.asked.answerForProject Sample.jobScheduler 1 Sample.afterFailure) =
        some none := by
  decide

end AnswerChain.Core
