import AnswerChain.Core.Persist

/-! What each operation of a run may change, as a `Frame` it keeps whether it returns or raises.
A request changes the attributes of its own node only; the callbacks and the final writes of
`_answer_for_project` write the files of their own answer only. So the background task of an
answer, whatever the clock, the service and the file system do, changes nothing but the nodes of
its chain and the files of its folder. -/

namespace AnswerChain.Core

open AnswerChain.Python Frame.Keeps

structure Frame.AllowsRequests (fr : Frame) (E : Env) : Prop where
  time : fr.Keeps (time E)
  create : ∀ node req, fr.Keeps (create E node req)
  logEvent : ∀ e, fr.Keeps (logEvent e)

def Frame.AllowsWrite (fr : Frame) (E : Env) (path : String) : Prop :=
  ∀ content, fr.Keeps (writeFile E path content)

theorem Frame.Keeps.of_liftExcept_bind {fr : Frame} {α β : Type} {x : Except PyError α} {a : α}
    (hx : x = .ok a) {f : α → Eff β} (hf : fr.Keeps (f a)) : fr.Keeps (liftExcept x >>= f) := by
  intro w
  simpa [hx] using hf w

section

variable {fr : Frame} {E : Env} (F : Forest)

theorem requestFor_keeps (node : Nat) : fr.Keeps (requestFor F node) := by
  unfold requestFor
  dsimp only
  split
  · exact of_pure _
  · split
    · exact of_pure _
    · refine of_bind (of_getNode _) fun st => ?_
      split
      · exact of_pure _
      · exact of_throw _

theorem answerNode_keeps (hfr : fr.AllowsRequests E) {cb : Option Callback} {node : Nat}
    (hset : ∀ f, fr.Keeps (setNode node f)) (hcb : ∀ f ∈ cb, fr.Keeps (f node)) :
    fr.Keeps (answerNode E F cb node) := by
  unfold answerNode
  refine of_bind hfr.time fun _ => of_bind (requestFor_keeps F node) fun _ =>
    of_bind (hfr.create _ _) fun _ => of_bind (hset _) fun _ =>
    of_bind hfr.time fun _ => of_bind (hset _) fun _ =>
    of_bind hfr.time fun _ => of_bind (hset _) fun _ => ?_
  cases cb with
  | none => exact of_pure _
  | some f => exact of_bind (hfr.logEvent _) fun _ => of_bind (hcb f rfl) fun _ => of_pure _

theorem resolveTime_keeps (ht : fr.Keeps (time E)) (t : Int) : fr.Keeps (resolveTime E t) := by
  unfold resolveTime
  split
  · exact of_map _ ht
  · exact of_pure _

theorem callnodeAlong_keeps (ht : fr.Keeps (time E)) {cb : Option Callback} :
    ∀ (l : List Nat) (t : Int), (∀ n ∈ l, fr.Keeps (answerNode E F cb n)) →
      fr.Keeps (callnodeAlong E F cb l t)
  | [], _, _ => of_throw _
  | node :: ancestors, t, h => by
    have hnode := h node (List.mem_cons_self _ _)
    have hrest : ∀ t, fr.Keeps (callnodeAlong E F cb ancestors t) := fun t =>
      callnodeAlong_keeps ht ancestors t fun n hn => h n (List.mem_cons_of_mem _ hn)
    unfold callnodeAlong
    refine of_bind (resolveTime_keeps ht t) fun t => ?_
    dsimp only
    split
    · refine of_bind (of_getNode _) fun _ => ?_
      split
      · exact of_bind (of_discard (hrest t)) fun _ => hnode
      · exact of_bind (of_pure _) fun _ => hnode
    · exact of_bind (of_pure _) fun _ => hnode

variable {q : Question} {p : Project}

theorem saveNodeContent_keeps {n : Nat} {save : Bool} (hw : fr.AllowsWrite E (q.nodeFile F p n)) :
    fr.Keeps (q.saveNodeContent E F p n save) := by
  refine of_bind of_getStore fun st => ?_
  dsimp only
  split
  · exact of_bind (hw _) fun _ => of_pure _
  · exact of_bind (of_pure _) fun _ => of_pure _

theorem oncomplete_keeps {n : Nat} (hw : fr.AllowsWrite E (q.nodeFile F p n))
    (hi : fr.AllowsWrite E (q.pathForProjectFile p "index" "md")) :
    fr.Keeps (q.oncomplete E F p n) :=
  of_bind (of_discard (saveNodeContent_keeps F hw)) fun _ =>
    of_bind (of_liftExcept _) fun _ => of_bind of_getStore fun _ => hi _

theorem saveAnswerMeta_keeps (hi : fr.AllowsWrite E (q.pathForProjectFile p "info" "json")) :
    fr.Keeps (q.saveAnswerMeta E F p) :=
  of_bind (of_liftExcept _) fun _ =>
    of_bind (of_mapM (fun n w => by rw [saveNodeContent_false_run]; exact fr.refl w) _) fun _ =>
      hi _

end

/-- The frame of a computation that changes the attributes of the nodes in `S` and the files in
`K`, and no other node or file. -/
def footprint (S : Nat → Prop) (K : Bool × List (List Char) → Prop) : Frame where
  rel w w' := (∀ n, ¬ S n → w'.store n = w.store n) ∧ ∀ k, ¬ K k → w'.files k = w.files k
  refl _ := ⟨fun _ _ => rfl, fun _ _ => rfl⟩
  trans h h' :=
    ⟨fun n hn => (h'.1 n hn).trans (h.1 n hn), fun k hk => (h'.2 k hk).trans (h.2 k hk)⟩

namespace footprint

variable {S : Nat → Prop} {K : Bool × List (List Char) → Prop}

theorem allowsRequests (E : Env) : (footprint S K).AllowsRequests E where
  time _ := ⟨fun _ _ => rfl, fun _ _ => rfl⟩
  create _ _ w := by
    unfold create
    split
    · exact ⟨fun _ _ => rfl, fun _ _ => rfl⟩
    · exact ⟨fun _ _ => rfl, fun _ _ => rfl⟩
  logEvent _ _ := ⟨fun _ _ => rfl, fun _ _ => rfl⟩

theorem setNode {n : Nat} (h : S n) (f : NodeState → NodeState) :
    (footprint S K).Keeps (setNode n f) := fun _ =>
  ⟨fun _ hm => Function.update_noteq (fun e => hm (e ▸ h : S _)) _ _, fun _ _ => rfl⟩

theorem writeFile {E : Env} {path : String} (h : K (fileKey path)) :
    (footprint S K).AllowsWrite E path := fun _ w => by
  unfold AnswerChain.Core.writeFile
  split
  · exact ⟨fun _ _ => rfl, fun _ hk => Function.update_noteq (fun e => hk (e ▸ h : K _)) _ _⟩
  · exact ⟨fun _ _ => rfl, fun _ _ => rfl⟩

theorem modifyThreads (f : List (String × Nat) → List (String × Nat)) :
    (footprint S K).Keeps (modifyThreads f) := fun _ => ⟨fun _ _ => rfl, fun _ _ => rfl⟩

theorem mono {S' : Nat → Prop} {K' : Bool × List (List Char) → Prop} (hS : ∀ n, S n → S' n)
    (hK : ∀ k, K k → K' k) {α : Type} {x : Eff α} (h : (footprint S K).Keeps x) :
    (footprint S' K').Keeps x := fun w =>
  ⟨fun n hn => (h w).1 n (hn ∘ hS n), fun k hk => (h w).2 k (hk ∘ hK k)⟩

end footprint

/-- The files of the answer of `p` whose chain ends at `leaf`: the `.md` file of each node of the
chain, `index.md` and `info.json`. -/
def Question.answerFiles (q : Question) (F : Forest) (p : Project) (leaf : Nat)
    (k : Bool × List (List Char)) : Prop :=
  (∃ n ∈ F.path leaf, k = fileKey (q.nodeFile F p n)) ∨
    k = fileKey (q.pathForProjectFile p "index" "md") ∨
    k = fileKey (q.pathForProjectFile p "info" "json")

theorem answerFiles_key {q : Question} {F : Forest} {p : Project} {leaf : Nat}
    {k : Bool × List (List Char)} (hq : PlainQuestion q) (hb : '/' ∉ q.baseId.data)
    (hp : FolderName p)
    (ht : ∀ n ∈ F.path leaf, startsWithSlash (F.get n).title = false ∧ NoDotDot (F.get n).title)
    (hk : q.answerFiles F p leaf k) :
    ∃ X, k.2 = (fileKey q.rootfolder).2 ++ q.baseId.data :: (joinWords "" p.name).data :: X := by
  rcases hk with ⟨n, hn, rfl⟩ | rfl | rfl
  · refine fileKey_pathForProjectFile hq hb hp ?_ ?_
    · simpa using startsWithSlash_append_eq_false
        (startsWithSlash_append_eq_false (ht n hn).1 (by decide)) (by decide)
    · simpa [String.append_assoc] using (ht n hn).2.append (s := ".md") (by decide) (by decide)
  · exact fileKey_pathForProjectFile hq hb hp (by decide) (by decide)
  · exact fileKey_pathForProjectFile hq hb hp (by decide) (by decide)

theorem answerFinished_keeps_footprint {q : Question} {p : Project} {leaf : Nat}
    (hleaf : q.leaf p.name = .ok leaf) (E : Env) (F : Forest) :
    (footprint (fun _ => False) fun k => (∃ n ∈ F.path leaf, k = fileKey (q.nodeFile F p n)) ∨
      k = fileKey (q.pathForProjectFile p "info" "json")).Keeps (q._answerFinished E F p) :=
  of_liftExcept_bind hleaf (of_bind (footprint.modifyThreads _) fun _ =>
    of_bind (of_forM_mem _ fun n hn => of_bind of_getStore fun _ =>
      footprint.writeFile (.inl ⟨n, hn, rfl⟩) _) fun _ =>
    saveAnswerMeta_keeps F (footprint.writeFile (.inr rfl)))

theorem answerForProject_keeps_footprint {q : Question} {p : Project} {leaf : Nat}
    (hleaf : q.leaf p.name = .ok leaf) (E : Env) (F : Forest) :
    (footprint (· ∈ F.path leaf) (q.answerFiles F p leaf)).Keeps (q._answerForProject E F p) := by
  refine of_liftExcept_bind hleaf (of_bind (of_discard ?_) fun _ => ?_)
  · exact callnodeAlong_keeps F (footprint.allowsRequests E).time _ _ fun n hn =>
      answerNode_keeps F (footprint.allowsRequests E) (footprint.setNode hn) fun f hf => by
        cases hf
        exact oncomplete_keeps F (footprint.writeFile (.inl ⟨n, hn, rfl⟩))
          (footprint.writeFile (.inr (.inl rfl)))
  · exact footprint.mono (fun _ => False.elim) (fun _ hk => hk.imp_right .inr)
      (answerFinished_keeps_footprint hleaf E F)

theorem answerForProject_footprint {q : Question} {p : Project} {leaf : Nat}
    (hleaf : q.leaf p.name = .ok leaf) (E : Env) (F : Forest) (w : World) :
    (∀ n ∉ F.path leaf, (finalWorld (q._answerForProject E F p w)).store n = w.store n) ∧
      ∀ k, ¬ q.answerFiles F p leaf k → (finalWorld (q._answerForProject E F p w)).files k = w.files k :=
  answerForProject_keeps_footprint hleaf E F w

theorem answerForProject_footprint_sample :
    Sample.asked.leaf Sample.jobScheduler.name = .ok 1 ∧
      (∀ n ∉ Sample.chain.path 1, (finalWorld (Sample.asked._answerForProject Sample.replies
        Sample.chain Sample.jobScheduler Sample.world)).store n = Sample.world.store n) ∧
      ∀ k, ¬ Sample.asked.answerFiles Sample.chain Sample.jobScheduler 1 k →
        (finalWorld (Sample.asked._answerForProject Sample.replies Sample.chain Sample.jobScheduler
          Sample.world)).files k = Sample.world.files k :=
  ⟨rfl, answerForProject_footprint
    (show Sample.asked.leaf Sample.jobScheduler.name = .ok 1 from rfl)
    Sample.replies Sample.chain Sample.world⟩

theorem answerForProject_of_leaf_error {q : Question} {p : Project} {e : PyError}
    (h : q.leaf p.name = .error e) (E : Env) (F : Forest) (w : World) :
    q._answerForProject E F p w = .error e w := by
  simp only [Question._answerForProject, h, liftExcept, bind_run, throw_run]

theorem answerForProject_store {q : Question} {p : Project} {F : Forest} {n : Nat}
    (hn : ∀ leaf, q.leaf p.name = .ok leaf → n ∉ F.path leaf) (E : Env) (w : World) :
    (finalWorld (q._answerForProject E F p w)).store n = w.store n := by
  cases h : q.leaf p.name with
  | ok leaf => exact (answerForProject_keeps_footprint h E F w).1 n (hn leaf h)
  | error e => rw [answerForProject_of_leaf_error h]; rfl

theorem answerForProject_files {q : Question} {p : Project} {F : Forest}
    {k : Bool × List (List Char)}
    (hk : ∀ leaf, q.leaf p.name = .ok leaf → ¬ q.answerFiles F p leaf k) (E : Env) (w : World) :
    (finalWorld (q._answerForProject E F p w)).files k = w.files k := by
  cases h : q.leaf p.name with
  | ok leaf => exact (answerForProject_keeps_footprint h E F w).2 k (hk leaf h)
  | error e => rw [answerForProject_of_leaf_error h]; rfl

theorem answerForProject_indexmd {E : Env} {F : Forest} {q : Question} {p : Project}
    {w w' : World} {leaf : Nat} (hleaf : q.leaf p.name = .ok leaf)
    (hrun : q._answerForProject E F p w = .ok () w')
    (hidx : ∀ n ∈ F.path leaf,
      fileKey (q.nodeFile F p n) ≠ fileKey (q.pathForProjectFile p "index" "md")) :
    w'.files (fileKey (q.pathForProjectFile p "index" "md")) =
      some (q.indexmd F (fun m => (w'.store m).responseContent) leaf) := by
  rw [answerForProject_eq_steps hleaf] at hrun
  obtain ⟨_, v, hsteps, hfin⟩ := bind_eq_ok _ hrun
  have hne : staleSegment F w.store (E.clock w.reads) leaf ≠ [] := fun h => by
    simpa [h] using (staleSegment_spec F w.store (E.clock w.reads) leaf).2.1
  have hinfo : fileKey (q.pathForProjectFile p "info" "json") ≠
      fileKey (q.pathForProjectFile p "index" "md") := by
    obtain ⟨x, hx⟩ := @pathForProjectFile_data q p "info" "json" (by decide)
    obtain ⟨y, hy⟩ := @pathForProjectFile_data q p "index" "md" (by decide)
    exact fileKey_ne_of_getLast hx hy (by decide) (by decide) (by decide) (by decide) (by decide)
      (by decide) (by decide)
  obtain ⟨hs, hf⟩ := hfin ▸ answerFinished_keeps_footprint hleaf E F v
  dsimp only [finalWorld] at hs hf
  have hstore : w'.store = v.store := funext fun n => hs n id
  rw [hf _ ?_, (forM_answerStep_eq_ok hleaf _ hsteps).2.2 hne, hstore]
  rintro (⟨n, hn, h⟩ | h)
  · exact hidx n hn h.symm
  · exact hinfo h.symm

theorem answerForProject_indexmd_sample :
    Sample.asked.leaf Sample.jobScheduler.name = .ok 1 ∧
      Sample.asked._answerForProject Sample.replies Sample.chain Sample.jobScheduler Sample.world =
        .ok () (Sample.finished Sample.chain) ∧
      (∀ n ∈ Sample.chain.path 1, fileKey (Sample.asked.nodeFile Sample.chain Sample.jobScheduler n) ≠
        fileKey (Sample.asked.pathForProjectFile Sample.jobScheduler "index" "md")) ∧
      (Sample.finished Sample.chain).files
          (fileKey (Sample.asked.pathForProjectFile Sample.jobScheduler "index" "md")) =
        some (Sample.asked.indexmd Sample.chain
          (fun m => ((Sample.finished Sample.chain).store m).responseContent) 1) :=
  have hleaf : Sample.asked.leaf Sample.jobScheduler.name = .ok 1 := rfl
  have hrun := Sample.answerForProject_run Sample.chain (by decide) (by decide)
  have hidx : ∀ n ∈ Sample.chain.path 1, fileKey (Sample.asked.nodeFile Sample.chain
      Sample.jobScheduler n) ≠ fileKey (Sample.asked.pathForProjectFile Sample.jobScheduler "index"
        "md") := by decide
  ⟨hleaf, hrun, hidx, answerForProject_indexmd hleaf hrun hidx⟩

namespace Sample

def titledIndex : Forest :=
  (Forest.empty.push (NodeInfo.new "root" "index" "Q0") Forest.none_parent_lt).push
    (NodeInfo.new "leaf" "Answer" "Q1" (some 0)) (Forest.some_parent_lt (by decide))

end Sample

example : (Sample.finished Sample.titledIndex).files
    (fileKey (Sample.asked.pathForProjectFile Sample.jobScheduler "index" "md")) = some "A0" := by
  decide

end AnswerChain.Core
