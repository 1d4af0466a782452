import AnswerChain.Core.CallNode
import AnswerChain.Core.Question

namespace AnswerChain.Core

open AnswerChain.Python

section

variable (F : Forest)

def indexBody (st : Nat → NodeState) : List Nat → String → String
  | [], out => out
  | n :: ns, out =>
    indexBody st ns (if (F.get n).title ≠ "" then
      "# " ++ (F.get n).title ++ "\n" ++ (st n).responseContent ++ "\n\n" ++ out else out)

def sections (text : Nat → String) : List Nat → String
  | [] => ""
  | m :: ms =>
    (if (F.get m).title ≠ "" then "# " ++ (F.get m).title ++ "\n" ++ text m ++ "\n\n" else "") ++
      sections text ms

theorem sections_append (text : Nat → String) (l : List Nat) (n : Nat) :
    sections F text (l ++ [n]) = sections F text l ++ sections F text [n] := by
  induction l with
  | nil => simp [sections]
  | cons m ms ih => rw [List.cons_append, sections, sections, ih, ← String.append_assoc]

theorem indexBody_eq (st : Nat → NodeState) (l : List Nat) (out : String) :
    indexBody F st l out = sections F (fun m => (st m).responseContent) l.reverse ++ out := by
  induction l generalizing out with
  | nil => simp [indexBody, sections]
  | cons n ns ih =>
    rw [indexBody, ih, List.reverse_cons, sections_append]
    simp only [sections]
    split_ifs <;> simp [String.append_assoc]

end

namespace Question

section

variable (q : Question) (E : Env) (F : Forest) (p : Project)

def nodeFile (n : Nat) : String := q.pathForProjectFile p (F.get n).title "md"

def nodeinfo (st : Nat → NodeState) (n : Nat) : Json :=
  ((F.toJson st n).set "contentfile" (.str (q.nodeFile F p n))).set "response" (.str "")

def saveNodeContent (n : Nat) (save : Bool) : Eff Json := do
  let st ← getStore
  if save then writeFile E (q.nodeFile F p n) (st n).responseContent
  pure (q.nodeinfo F p st n)

def saveAnswerIndexmd : Eff Unit := do
  let node ← liftExcept (q.leaf p.name)
  let st ← getStore
  writeFile E (q.pathForProjectFile p "index" "md")
    ("# " ++ q.content ++ "\n\n" ++ indexBody F st (F.path node) "")

/-- `save_answer_meta(project)`: the question's `to_json()`, the project's name, and one entry per
node, appended while walking from the leaf to the root. -/
def saveAnswerMeta : Eff Unit := do
  let leaf ← liftExcept (q.leaf p.name)
  let nodes ← (F.path leaf).mapM fun n => q.saveNodeContent E F p n false
  writeFile E (q.pathForProjectFile p "info" "json")
    (Json.dumps ((q.toJson.set "project" (.str p.name)).set "nodes" (.arr nodes)))

/-- `_answer_finished(project)`: drop the answer id from `threads`, write every node's `.md` from
the leaf up, then `info.json`. -/
def _answerFinished : Eff Unit := do
  let leaf ← liftExcept (q.leaf p.name)
  let answerid := q.answerId p
  modifyThreads fun threads => if dictHas threads answerid then dictDel threads answerid else threads
  (F.path leaf).forM fun n => do
    let st ← getStore
    writeFile E (q.nodeFile F p n) (st n).responseContent
  q.saveAnswerMeta E F p

def oncomplete : Callback := fun node => do
  discard (q.saveNodeContent E F p node true)
  q.saveAnswerIndexmd E F p

def _answerForProject : Eff Unit := do
  let leaf ← liftExcept (q.leaf p.name)
  discard (callnode E F leaf (-1) (some (q.oncomplete E F p)))
  q._answerFinished E F p

def answerStep (n : Nat) : Eff PUnit := discard (answerNode E F (some (q.oncomplete E F p)) n)

def answerInfo (st : Nat → NodeState) (leaf : Nat) : Json :=
  (q.toJson.set "project" (.str p.name)).set "nodes" (.arr ((F.path leaf).map (q.nodeinfo F p st)))

/-- `index.md` as the design notes describe it: the question, then a section for each titled node
of the chain, root first, showing `text`. -/
def indexmd (text : Nat → String) (leaf : Nat) : String :=
  "# " ++ q.content ++ "\n\n" ++ sections F text (F.path leaf).reverse

end

end Question

section

variable {q : Question} {E : Env} {F : Forest} {p : Project}

@[simp] theorem saveNodeContent_false_run (n : Nat) (w : World) :
    q.saveNodeContent E F p n false w = .ok (q.nodeinfo F p w.store n) w := rfl

theorem mapM_saveNodeContent (l : List Nat) (w : World) :
    (l.mapM fun n => q.saveNodeContent E F p n false) w = .ok (l.map (q.nodeinfo F p w.store)) w := by
  induction l with
  | nil => rfl
  | cons n ns ih =>
    simp only [List.mapM_cons, bind_run, saveNodeContent_false_run, ih, pure_run, List.map_cons]

theorem saveNodeContent_true_eq_ok {n : Nat} {w w' : World} {j : Json}
    (h : q.saveNodeContent E F p n true w = .ok j w') :
    writeFile E (q.nodeFile F p n) (w.store n).responseContent w = .ok () w' := by
  simp only [Question.saveNodeContent, bind_run, getStore_run, if_true] at h
  split at h <;> cases h
  assumption

theorem saveAnswerIndexmd_eq_ok {leaf : Nat} {w w' : World} (hleaf : q.leaf p.name = .ok leaf)
    (h : q.saveAnswerIndexmd E F p w = .ok () w') :
    writeFile E (q.pathForProjectFile p "index" "md")
      (q.indexmd F (fun m => (w.store m).responseContent) leaf) w = .ok () w' := by
  simpa [Question.saveAnswerIndexmd, hleaf, Question.indexmd, indexBody_eq] using h

theorem oncomplete_eq_ok {leaf n : Nat} {w w' : World} (hleaf : q.leaf p.name = .ok leaf)
    (h : q.oncomplete E F p n w = .ok () w') :
    w'.store = w.store ∧
      w'.files (fileKey (q.pathForProjectFile p "index" "md")) =
        some (q.indexmd F (fun m => (w.store m).responseContent) leaf) ∧
      ∃ a b c d, w'.log = w.log ++ [.write a b, .write c d] := by
  obtain ⟨_, v, h1, h2⟩ := bind_eq_ok w h
  obtain ⟨_, h1⟩ := discard_eq_ok w h1
  obtain rfl := writeFile_eq_ok E w (saveNodeContent_true_eq_ok h1)
  obtain rfl := writeFile_eq_ok E _ (saveAnswerIndexmd_eq_ok hleaf h2)
  exact ⟨rfl, by simp, _, _, _, _, List.append_assoc _ _ _⟩

theorem answerNode_oncomplete_eq_ok {leaf n : Nat} {v u : World} {r : Response}
    (hleaf : q.leaf p.name = .ok leaf)
    (h : answerNode E F (some (q.oncomplete E F p)) n v = .ok r u) :
    (u.store n).responseContent = r.outputText ∧
      (∀ m, m ≠ n → (u.store m).responseContent = (v.store m).responseContent) ∧
      u.files (fileKey (q.pathForProjectFile p "index" "md")) =
        some (q.indexmd F (fun m => (u.store m).responseContent) leaf) ∧
      ∃ evs, u.log = v.log ++ evs ∧
        ∀ m, loggedText evs m = if n = m then some r.outputText else none := by
  obtain ⟨req, -, hcb⟩ := answerNode_eq_ok E F h
  obtain ⟨hs, hf, a, b, c, d, hl⟩ := oncomplete_eq_ok hleaf hcb
  refine ⟨by simp [hs, World.record, World.answered, NodeState.answered],
    fun m hm => by simp [hs, World.record, World.answered, hm], by rw [hs]; exact hf,
    [.request n req r, .callback n, .write a b, .write c d],
    by simp [hl, World.record, World.answered], fun m => ?_⟩
  simp only [show [Event.request n req r, .callback n, .write a b, .write c d] =
    [.request n req r] ++ [.callback n] ++ [.write a b] ++ [.write c d] from rfl, loggedText_append,
    loggedText_request, loggedText_callback, loggedText_write, Option.none_or]

theorem forM_answerStep_eq_ok {leaf : Nat} (hleaf : q.leaf p.name = .ok leaf) (l : List Nat)
    {v u : World} (h : l.forM (q.answerStep E F p) v = .ok () u) :
    (∀ m, m ∉ l → (u.store m).responseContent = (v.store m).responseContent) ∧
      (∃ evs, u.log = v.log ++ evs ∧
        ∀ m, loggedText evs m = if m ∈ l then some (u.store m).responseContent else none) ∧
      (l ≠ [] → u.files (fileKey (q.pathForProjectFile p "index" "md")) =
        some (q.indexmd F (fun m => (u.store m).responseContent) leaf)) := by
  induction l using List.reverseRecOn generalizing u with
  | nil =>
    cases h
    exact ⟨fun _ _ => rfl, ⟨[], by simp, by simp⟩, fun h => absurd rfl h⟩
  | append_singleton l n ih =>
    rw [List.forM_append] at h
    obtain ⟨_, v1, h1, h2⟩ := bind_eq_ok v h
    obtain ⟨hs1, ⟨evs1, hl1, he1⟩, -⟩ := ih h1
    obtain ⟨_, u1, h3, h4⟩ := bind_eq_ok v1 (by simpa only [List.forM_cons', List.forM_nil'] using h2)
    cases h4
    obtain ⟨r, h3⟩ := discard_eq_ok v1 h3
    obtain ⟨hn, hs, hf, evs2, hl2, he2⟩ := answerNode_oncomplete_eq_ok hleaf h3
    refine ⟨fun m hm => ?_, ⟨evs1 ++ evs2, by simp [hl2, hl1], fun m => ?_⟩, fun _ => hf⟩
    · simp only [List.mem_append, List.mem_singleton, not_or] at hm
      rw [hs m hm.2, hs1 m hm.1]
    · rw [loggedText_append, he2, he1]
      by_cases hmn : n = m
      · subst hmn; simp [hn]
      · simp [hmn, Ne.symm hmn, hs m (Ne.symm hmn)]

theorem answerForProject_eq_steps {leaf : Nat} (hleaf : q.leaf p.name = .ok leaf) (w : World) :
    q._answerForProject E F p w =
      ((staleSegment F w.store (E.clock w.reads) leaf).forM (q.answerStep E F p) >>= fun _ =>
        q._answerFinished E F p) { w with reads := w.reads + 1 } := by
  have hd := congrFun (discard_dispatch E F (some (q.oncomplete E F p))
    (staleAncestors F w.store (E.clock w.reads) (F.path leaf)) leaf) { w with reads := w.reads + 1 }
  rw [staleAncestors_append, discard_run] at hd
  have hres : resolved E (-1) w = ((E.clock w.reads : Int), { w with reads := w.reads + 1 }) := by
    simp [resolved]
  simp only [Question._answerForProject, bind_run, hleaf, liftExcept_ok, pure_run, discard_run,
    callnode_eq_dispatch, hres]
  rw [hd]
  rfl

end

section

variable {q : Question} {E : Env} {F : Forest} {p : Project}

theorem forM_writeNodeFile_eq_ok (l : List Nat) {v u : World}
    (h : (l.forM (fun n => do
      let st ← getStore
      writeFile E (q.nodeFile F p n) (st n).responseContent) : Eff PUnit) v = .ok () u) :
    u.store = v.store ∧
      (∀ k, k ∉ l.map (fun n => fileKey (q.nodeFile F p n)) → u.files k = v.files k) ∧
      ((l.map fun n => fileKey (q.nodeFile F p n)).Nodup →
        ∀ n ∈ l, u.files (fileKey (q.nodeFile F p n)) = some (v.store n).responseContent) := by
  induction l generalizing v with
  | nil => cases h; exact ⟨rfl, fun _ _ => rfl, by simp⟩
  | cons n ns ih =>
    obtain ⟨_, v1, h1, h2⟩ := bind_eq_ok v (by simpa only [List.forM_cons'] using h)
    obtain rfl := writeFile_eq_ok E v (by simpa only [bind_run, getStore_run] using h1)
    obtain ⟨hs, hk, hn⟩ := ih h2
    refine ⟨hs, fun k hk' => ?_, fun hnd m hm => ?_⟩
    · simp only [List.map_cons, List.mem_cons, not_or] at hk'
      rw [hk k hk'.2]
      exact Function.update_noteq hk'.1 _ _
    · rw [List.map_cons, List.nodup_cons] at hnd
      rcases List.mem_cons.1 hm with rfl | hm
      · rw [hk _ hnd.1]
        exact Function.update_same _ _ _
      · exact hn hnd.2 m hm

theorem saveAnswerMeta_eq_ok {leaf : Nat} {v u : World} (hleaf : q.leaf p.name = .ok leaf)
    (h : q.saveAnswerMeta E F p v = .ok () u) :
    writeFile E (q.pathForProjectFile p "info" "json")
      (Json.dumps (q.answerInfo F p v.store leaf)) v = .ok () u := by
  simp only [Question.saveAnswerMeta, bind_run, hleaf, liftExcept_ok, pure_run,
    mapM_saveNodeContent] at h
  exact h

theorem nodeinfo_parentid (st : Nat → NodeState) (n : Nat) :
    (q.nodeinfo F p st n).get? "parentid" = some (match (F.get n).parent with
      | some m => .str (F.get m).id
      | none => .null) := rfl

theorem nodeinfo_id (st : Nat → NodeState) (n : Nat) :
    (q.nodeinfo F p st n).get? "id" = some (.str (F.get n).id) := rfl

theorem nodeinfo_contentfile (st : Nat → NodeState) (n : Nat) :
    (q.nodeinfo F p st n).get? "contentfile" = some (.str (q.nodeFile F p n)) := rfl

theorem pathForProjectFile_data (name : String) {ext : String} (h : ext ≠ "") :
    ∃ x, (q.pathForProjectFile p name ext).data = x ++ '.' :: ext.data := by
  obtain ⟨x, hx⟩ := pathJoin_one (q.folderForProject p) (name ++ "." ++ ext)
  exact ⟨x ++ name.data, by simp [Question.pathForProjectFile, h, hx]⟩

theorem fileKey_info_ne_nodeFile (n : Nat) :
    fileKey (q.pathForProjectFile p "info" "json") ≠ fileKey (q.nodeFile F p n) := by
  obtain ⟨x, hx⟩ := @pathForProjectFile_data q p "info" "json" (by decide)
  obtain ⟨y, hy⟩ := @pathForProjectFile_data q p (F.get n).title "md" (by decide)
  exact fileKey_ne_of_getLast hx hy (by decide) (by decide) (by decide) (by decide) (by decide)
    (by decide) (by decide)

theorem answerFinished_eq_ok {leaf : Nat} {v u : World} (hleaf : q.leaf p.name = .ok leaf)
    (h : q._answerFinished E F p v = .ok () u) :
    u.store = v.store ∧
      u.files (fileKey (q.pathForProjectFile p "info" "json")) =
        some (Json.dumps (q.answerInfo F p u.store leaf)) ∧
      (((F.path leaf).map fun n => fileKey (q.nodeFile F p n)).Nodup →
        ∀ n ∈ F.path leaf, u.files (fileKey (q.nodeFile F p n)) = some (u.store n).responseContent) := by
  simp only [Question._answerFinished, bind_run, hleaf, liftExcept_ok, pure_run,
    modifyThreads_run] at h
  split at h
  · rename_i v2 h2
    obtain ⟨hs, hk, hn⟩ := forM_writeNodeFile_eq_ok _ h2
    obtain rfl := writeFile_eq_ok E _ (saveAnswerMeta_eq_ok hleaf h)
    refine ⟨hs, by simp [hs], fun hnd n hm => ?_⟩
    exact (Function.update_noteq (fileKey_info_ne_nodeFile n).symm _ _).trans
      ((hn hnd n hm).trans (by rw [hs]))
  · cases h

end

theorem answerForProject_info_json {E : Env} {F : Forest} {q : Question} {p : Project}
    {w w' : World} {leaf : Nat} (hleaf : q.leaf p.name = .ok leaf)
    (hrun : q._answerForProject E F p w = .ok () w') :
    w'.files (fileKey (q.pathForProjectFile p "info" "json")) =
        some (Json.dumps (q.answerInfo F p w'.store leaf)) ∧
      ((F.path leaf).map (q.nodeinfo F p w'.store)).head? = some (q.nodeinfo F p w'.store leaf) ∧
      ((F.path leaf).map (q.nodeinfo F p w'.store)).Chain'
        (fun e e' => e.get? "parentid" = e'.get? "id") ∧
      (((F.path leaf).map fun n => fileKey (q.nodeFile F p n)).Nodup →
        ∀ n ∈ F.path leaf,
          (q.nodeinfo F p w'.store n).get? "contentfile" = some (.str (q.nodeFile F p n)) ∧
            w'.files (fileKey (q.nodeFile F p n)) = some (w'.store n).responseContent) := by
  simp only [Question._answerForProject, bind_run, hleaf, liftExcept_ok, pure_run] at hrun
  split at hrun
  · obtain ⟨-, hinfo, hfiles⟩ := answerFinished_eq_ok hleaf hrun
    obtain ⟨l, hl⟩ := F.path_head leaf
    refine ⟨hinfo, by simp [hl], List.chain'_map_of_chain' _ (fun a b hab => ?_) (F.path_chain leaf),
      fun hnd n hn => ⟨nodeinfo_contentfile _ n, hfiles hnd n hn⟩⟩
    rw [nodeinfo_parentid, nodeinfo_id, hab]
  · cases hrun

namespace Sample

def replies : Env :=
  ⟨fun k => k % Nat.pow 2 53, fun _ => Nat.mod_lt _ (Nat.two_pow_pos 53),
    fun k _ => some ⟨toString k, "A" ++ toString k⟩, fun _ _ => true, fun _ => true⟩

def chain : Forest :=
  (Forest.empty.push (NodeInfo.new "context" "Context" "Q0") Forest.none_parent_lt).push
    (NodeInfo.new "answer" "Answer" "Q1" (some 0)) (Forest.some_parent_lt (by decide))

def aliased : Forest :=
  (Forest.empty.push (NodeInfo.new "root" "x" "Q0") Forest.none_parent_lt).push
    (NodeInfo.new "leaf" "./x" "Q1" (some 0)) (Forest.some_parent_lt (by decide))

def asked : Question := question.addProject jobScheduler 1

def finished (F : Forest) : World :=
  finalWorld (asked._answerFinished replies F jobScheduler
    (finalWorld (callnode replies F 1 (-1) (some (asked.oncomplete replies F jobScheduler)) world)))

theorem answerForProject_run (F : Forest)
    (hc : returned (callnode replies F 1 (-1) (some (asked.oncomplete replies F jobScheduler)) world))
    (hf : returned (asked._answerFinished replies F jobScheduler
      (finalWorld (callnode replies F 1 (-1) (some (asked.oncomplete replies F jobScheduler)) world)))) :
    asked._answerForProject replies F jobScheduler world = .ok () (finished F) := by
  unfold Question._answerForProject
  exact bind_eq_ok_of _ rfl (bind_eq_ok_of _ (discard_eq_ok_finalWorld _ hc) (eq_ok_finalWorld hf))

end Sample

theorem answerForProject_info_json_leaf_first :
    (Sample.aliased.get 0).title = "x" ∧ (Sample.aliased.get 1).title = "./x" ∧
      Sample.asked._answerForProject Sample.replies Sample.aliased Sample.jobScheduler Sample.world =
        .ok () (Sample.finished Sample.aliased) ∧
      (Sample.finished Sample.aliased).files
          (fileKey (Sample.asked.pathForProjectFile Sample.jobScheduler "info" "json")) =
        some (Json.dumps (Sample.asked.answerInfo Sample.aliased Sample.jobScheduler
          (Sample.finished Sample.aliased).store 1)) ∧
      (Sample.asked.answerInfo Sample.aliased Sample.jobScheduler
          (Sample.finished Sample.aliased).store 1).get? "nodes" =
        some (.arr [Sample.asked.nodeinfo Sample.aliased Sample.jobScheduler
            (Sample.finished Sample.aliased).store 1,
          Sample.asked.nodeinfo Sample.aliased Sample.jobScheduler
            (Sample.finished Sample.aliased).store 0]) ∧
      (Sample.asked.nodeinfo Sample.aliased Sample.jobScheduler
          (Sample.finished Sample.aliased).store 1).get? "parentid" = some (.str "root") ∧
      (Sample.asked.nodeinfo Sample.aliased Sample.jobScheduler
          (Sample.finished Sample.aliased).store 0).get? "parentid" = some .null ∧
      (Sample.asked.nodeinfo Sample.aliased Sample.jobScheduler
          (Sample.finished Sample.aliased).store 1).get? "contentfile" =
        some (.str (Sample.asked.nodeFile Sample.aliased Sample.jobScheduler 1)) ∧
      (Sample.finished Sample.aliased).files
          (fileKey (Sample.asked.nodeFile Sample.aliased Sample.jobScheduler 1)) = some "A0" ∧
      ((Sample.finished Sample.aliased).store 1).responseContent = "A1" :=
  have hleaf : Sample.asked.leaf Sample.jobScheduler.name = .ok 1 := rfl
  have hrun := Sample.answerForProject_run Sample.aliased (by decide) (by decide)
  ⟨rfl, rfl, hrun, (answerForProject_info_json hleaf hrun).1, rfl, rfl, rfl, rfl, by decide,
    by decide⟩

theorem indexmd_after_callback {E : Env} {F : Forest} {q : Question} {p : Project} {w : World}
    {leaf : Nat} (hleaf : q.leaf p.name = .ok leaf) (i : Nat) {wi : World}
    (hrun : ((staleSegment F w.store (E.clock w.reads) leaf).take (i + 1)).forM (q.answerStep E F p)
      { w with reads := w.reads + 1 } = .ok () wi) :
    q._answerForProject E F p w =
        ((staleSegment F w.store (E.clock w.reads) leaf).forM (q.answerStep E F p) >>= fun _ =>
          q._answerFinished E F p) { w with reads := w.reads + 1 } ∧
      ∃ text : Nat → String,
        (∀ m ∈ (staleSegment F w.store (E.clock w.reads) leaf).take (i + 1),
          loggedText (wi.log.drop w.log.length) m = some (text m)) ∧
        (∀ m ∉ (staleSegment F w.store (E.clock w.reads) leaf).take (i + 1),
          text m = (w.store m).responseContent) ∧
        wi.files (fileKey (q.pathForProjectFile p "index" "md")) = some (q.indexmd F text leaf) := by
  obtain ⟨hs, ⟨evs, hl, he⟩, hf⟩ := forM_answerStep_eq_ok hleaf _ hrun
  have hne : (staleSegment F w.store (E.clock w.reads) leaf).take (i + 1) ≠ [] := by
    have := (staleSegment_spec F w.store (E.clock w.reads) leaf).2.1
    intro h
    simp_all [List.take_eq_nil_iff]
  refine ⟨answerForProject_eq_steps hleaf w, fun m => (wi.store m).responseContent,
    fun m hm => ?_, hs, hf hne⟩
  simpa [hl, he] using hm

namespace Sample

def afterSecondCallback : World :=
  finalWorld (asked.answerStep replies chain jobScheduler 1
    (finalWorld (asked.answerStep replies chain jobScheduler 0 { world with reads := world.reads + 1 })))

end Sample

theorem indexmd_after_callback_sample :
    let q := Sample.asked
    let E := Sample.replies
    let F := Sample.chain
    let p := Sample.jobScheduler
    let w := Sample.world
    let wi := Sample.afterSecondCallback
    let seg := staleSegment F w.store (E.clock w.reads) 1
    q.leaf p.name = .ok 1 ∧
      (seg.take (1 + 1)).forM (q.answerStep E F p) { w with reads := w.reads + 1 } = .ok () wi ∧
      q._answerForProject E F p w =
        (seg.forM (q.answerStep E F p) >>= fun _ => q._answerFinished E F p)
          { w with reads := w.reads + 1 } ∧
      ∃ text : Nat → String,
        (∀ m ∈ seg.take (1 + 1), loggedText (wi.log.drop w.log.length) m = some (text m)) ∧
        (∀ m ∉ seg.take (1 + 1), text m = (w.store m).responseContent) ∧
        wi.files (fileKey (q.pathForProjectFile p "index" "md")) = some (q.indexmd F text 1) :=
  have hleaf : Sample.asked.leaf Sample.jobScheduler.name = .ok 1 := rfl
  have hseg : (staleSegment Sample.chain Sample.world.store
      (Sample.replies.clock Sample.world.reads) 1).take (1 + 1) = [0, 1] := by decide
  have hrun : ((staleSegment Sample.chain Sample.world.store
      (Sample.replies.clock Sample.world.reads) 1).take (1 + 1)).forM
        (Sample.asked.answerStep Sample.replies Sample.chain Sample.jobScheduler)
        { Sample.world with reads := Sample.world.reads + 1 } = .ok () Sample.afterSecondCallback := by
    rw [hseg]
    exact forM_cons_eq_ok _ (eq_ok_finalWorld (by decide))
      (forM_cons_eq_ok _ (eq_ok_finalWorld (by decide)) rfl)
  ⟨hleaf, hrun, indexmd_after_callback hleaf 1 hrun⟩

end AnswerChain.Core
