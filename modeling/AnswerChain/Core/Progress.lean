import AnswerChain.Core.Threads

namespace AnswerChain.Core

open AnswerChain.Python Frame.Keeps

def recordedFrame : Frame :=
  ⟨fun w w' => Recorded w.store → Recorded w'.store, fun _ h => h, fun h h' hr => h' (h hr)⟩

namespace recordedFrame

theorem of_store {α : Type} {x : Eff α} (h : ∀ w, (finalWorld (x w)).store = w.store) :
    recordedFrame.Keeps x := fun w hr => by
  show Recorded (finalWorld (x w)).store
  rw [h w]
  exact hr

theorem allowsRequests (E : Env) : recordedFrame.AllowsRequests E where
  time := of_store fun _ => rfl
  create _ _ := of_store fun w => by unfold create; split <;> rfl
  logEvent _ := of_store fun _ => rfl

theorem allowsWrite (E : Env) (path : String) : recordedFrame.AllowsWrite E path :=
  fun _ => of_store fun w => by unfold writeFile; split <;> rfl

end recordedFrame

theorem recorded_answered {w : World} (h : Recorded w.store) (E : Env) (n : Nat) (req : Request)
    (r : Response) : Recorded (w.answered E n req r).store := fun m hm => by
  by_cases hmn : m = n
  · subst hmn
    simp [World.answered, NodeState.answered]
  · simp only [World.answered, Function.update_noteq hmn] at hm ⊢
    exact h m hm

theorem answerNode_keeps_recorded {E : Env} {F : Forest} {cb : Option Callback} {n : Nat}
    (hcb : ∀ f ∈ cb, recordedFrame.Keeps (f n)) : recordedFrame.Keeps (answerNode E F cb n) := by
  intro w hrec
  by_cases hread : Readable F w.store n
  · obtain ⟨req, hreq, -⟩ := requestFor_run F hread
    cases hr : E.client w.calls req with
    | none => simpa [answerNode, hreq, create, hr] using hrec
    | some r =>
      show Recorded (finalWorld (answerNode E F cb n w)).store
      rw [answerNode_run E F hreq hr]
      cases cb with
      | none => exact recorded_answered hrec E n req r
      | some f =>
        have hf := hcb f rfl ((w.answered E n req r).record (.callback n))
          (recorded_answered hrec E n req r)
        dsimp only
        revert hf
        cases f n ((w.answered E n req r).record (.callback n)) <;> exact id
  · simpa [answerNode, requestFor_of_not_readable F (w := { w with reads := w.reads + 1 }) hread]
      using hrec

theorem answerForProject_keeps_recorded (q : Question) (E : Env) (F : Forest) (p : Project) :
    recordedFrame.Keeps (q._answerForProject E F p) := by
  have hw := recordedFrame.allowsWrite E
  refine of_bind (of_liftExcept _) fun leaf => of_bind (of_discard ?_) fun _ => ?_
  · exact callnodeAlong_keeps F (recordedFrame.allowsRequests E).time _ _ fun n _ =>
      answerNode_keeps_recorded fun f hf => by
        cases hf
        exact oncomplete_keeps F (hw _) (hw _)
  · exact of_bind (of_liftExcept _) fun _ => of_bind (recordedFrame.of_store fun _ => rfl) fun _ =>
      of_bind (of_forM (fun _ => of_bind of_getStore fun _ => hw _ _) _) fun _ =>
        saveAnswerMeta_keeps F (hw _)

section

variable {q : Question} {p : Project} {leaf : Nat} {E : Env} {F : Forest}

theorem oncomplete_quiet (hleaf : q.leaf p.name = .ok leaf) (hw : E.Writes) :
    Quiet (some (q.oncomplete E F p)) := by
  intro n w
  obtain ⟨w', hrun, hcalls⟩ : ∃ w', q.oncomplete E F p n w = .ok () w' ∧ w'.calls = w.calls := by
    simp only [Question.oncomplete, Question.saveNodeContent, Question.saveAnswerIndexmd, bind_run,
      getStore_run, if_true, writeFile_run_of_writes E _ hw, discard_run, pure_run, hleaf,
      liftExcept_ok]
    exact ⟨_, rfl, rfl⟩
  obtain ⟨hs, -, a, b, c, d, hl⟩ := oncomplete_eq_ok hleaf hrun
  exact ⟨w', hrun, hs, hcalls, _, hl, rfl⟩

theorem answerFinished_returns (hleaf : q.leaf p.name = .ok leaf) (hw : E.Writes) (w : World) :
    ∃ w', q._answerFinished E F p w = .ok () w' := by
  have hloop : ∀ (l : List Nat) (v : World), ∃ v', (l.forM fun n => do
      let st ← getStore
      writeFile E (q.nodeFile F p n) (st n).responseContent) v = .ok () v' := by
    intro l
    induction l with
    | nil => exact fun v => ⟨v, rfl⟩
    | cons n ns ih =>
      intro v
      simpa only [List.forM_cons', bind_run, getStore_run, writeFile_run_of_writes E _ hw]
        using ih _
  simp only [Question._answerFinished, bind_run, hleaf, liftExcept_ok, pure_run, modifyThreads_run]
  generalize (if dictHas w.threads (q.answerId p) = true then dictDel w.threads (q.answerId p)
    else w.threads) = threads
  obtain ⟨v, hv⟩ := hloop (F.path leaf) { w with threads := threads }
  simp only [hv, Question.saveAnswerMeta, bind_run, hleaf, liftExcept_ok, pure_run,
    mapM_saveNodeContent, writeFile_run_of_writes E _ hw]
  exact ⟨_, rfl⟩

end

inductive Runs (w : World) : World → Prop
  | refl : Runs w w
  | call {w' : World} (q : Question) (p : Project) (thread : Nat) :
      Runs w w' → Runs w (finalWorld (q.answerForProject p thread w'))
  | task {w' : World} (q : Question) (p : Project) (E : Env) (F : Forest) :
      Runs w w' → Runs w (finalWorld (q._answerForProject E F p w'))

theorem answerForProject_call_store (q : Question) (p : Project) (thread : Nat) (w : World) :
    (finalWorld (q.answerForProject p thread w)).store = w.store := by
  cases h : q.leaf p.name with
  | ok leaf =>
    rw [answerForProject_eq h]
    split <;> rfl
  | error e =>
    simp [Question.answerForProject, h, liftExcept]
    rfl

theorem Runs.recorded {w w' : World} (hrec : Recorded w.store) (h : Runs w w') :
    Recorded w'.store := by
  induction h with
  | refl => exact hrec
  | call q p thread _ ih => rwa [answerForProject_call_store]
  | task q p E F _ ih => exact answerForProject_keeps_recorded q E F p _ ih

theorem answerForProject_returns {w w' : World} (hrec : Recorded w.store) (hruns : Runs w w')
    {q : Question} {p : Project} {leaf : Nat} (hleaf : q.leaf p.name = .ok leaf) {E : Env}
    (hans : E.Answers) (hw : E.Writes) (F : Forest) :
    ∃ w'', q._answerForProject E F p w' = .ok () w'' := by
  obtain ⟨r, v, -, hrun, -, -⟩ := dispatch_staleAncestors E F hans
    (oncomplete_quiet (F := F) hleaf hw) (resolved_nonneg E (-1) w') (w := (resolved E (-1) w').2)
    (by simpa using hruns.recorded hrec) leaf
  rw [resolved_store] at hrun
  obtain ⟨w'', hfin⟩ := answerFinished_returns (F := F) hleaf hw v
  refine ⟨w'', ?_⟩
  simp only [Question._answerForProject, bind_run, hleaf, liftExcept_ok, pure_run, discard_run,
    callnode_eq_dispatch, hrun, hfin]

theorem answerForProject_returns_after_failure :
    Recorded Sample.world.store ∧ Runs Sample.world Sample.afterFailure ∧
      Sample.asked.leaf Sample.jobScheduler.name = .ok 1 ∧ Sample.replies.Answers ∧
      Sample.replies.Writes ∧
      ∃ w'', Sample.asked._answerForProject Sample.replies Sample.chain Sample.jobScheduler
        Sample.afterFailure = .ok () w'' :=
  have hrec : Recorded Sample.world.store := fun _ h => by
    simp [Sample.world, NodeState.init, PyNum.val] at h
  have hruns : Runs Sample.world Sample.afterFailure := .task _ _ _ _ (.call _ _ _ .refl)
  have hans : Sample.replies.Answers := fun _ _ => rfl
  have hw : Sample.replies.Writes := fun _ _ => rfl
  ⟨hrec, hruns, rfl, hans, hw, answerForProject_returns hrec hruns
    (show Sample.asked.leaf Sample.jobScheduler.name = .ok 1 from rfl) hans hw Sample.chain⟩

end AnswerChain.Core
