import AnswerChain.Bot.Chains
import AnswerChain.Core.Threads

namespace AnswerChain.Bot

open AnswerChain.Python AnswerChain.Core

abbrev QDict := List (String × List (String × List String))

/-- What `load_questions` falls back on: the dict `questions.ALL`, and the list of three projects it
takes from `projects`. -/
structure Catalogue where
  questions : QDict
  projects : List Project
  projects_ne : projects ≠ []

structure Session where
  outputFolder : String := "./responses"
  questions : List Question := []
  deriving DecidableEq, Repr

namespace Session

/-- `qdict = qdict or {}`, then `questions.ALL` while it is empty. -/
def questionsOr (cat : Catalogue) (qdict : Option QDict) : QDict :=
  match qdict.getD [] with
  | [] => cat.questions
  | qdict => qdict

/-- `projs`, or the catalogue's projects while it is `None` or empty. -/
def projectsOr (cat : Catalogue) (projs : Option (List Project)) : List Project :=
  match projs.getD [] with
  | [] => cat.projects
  | projs => projs

def entries (qdict : QDict) : List (String × String × Nat × String) :=
  qdict.flatMap fun area => area.2.flatMap fun topic =>
    topic.2.enum.map fun iq => (area.1, topic.1, iq.1, iq.2)

def newQuestion (s : Session) (area topicname : String) (index : Nat) (question : String) :
    Question :=
  { rootfolder := s.outputFolder, area := area, subtopic := topicname, content := question,
    id := toString index }

def addChains (F : Forest) (q : Question) : List Project → Forest × Question
  | [] => (F, q)
  | proj :: projs =>
    let chain := nodesForAnswerWithReview F q (some proj)
    addChains chain.1 (q.addProject proj chain.2) projs

/-- The loops of `load_questions` over the entries of its dict. The code appends `q` before it adds
the projects; it is one object, so the session ends holding it with its projects. -/
def loadEntries (projs : List Project) (s : Session) (F : Forest) :
    List (String × String × Nat × String) → Session × Forest
  | [] => (s, F)
  | (area, topicname, index, question) :: es =>
    let r := addChains F (s.newQuestion area topicname index question) projs
    loadEntries projs { s with questions := s.questions ++ [r.2] } r.1 es

def loadQuestions (s : Session) (F : Forest) (cat : Catalogue) (qdict : Option QDict)
    (projs : Option (List Project)) : Session × Forest :=
  loadEntries (projectsOr cat projs) s F (entries (questionsOr cat qdict))

def addChainsRun (E : Env) (F : Forest) (q : Question) : List Project → Eff (Forest × Question)
  | [] => pure (F, q)
  | proj :: projs => do
    let chain := nodesForAnswerWithReview F q (some proj)
    let q := q.addProject proj chain.2
    discard (q.ensureFolder E proj)
    addChainsRun E chain.1 q projs

def loadEntriesRun (E : Env) (projs : List Project) (s : Session) (F : Forest) :
    List (String × String × Nat × String) → Eff (Session × Forest)
  | [] => pure (s, F)
  | (area, topicname, index, question) :: es => do
    let r ← addChainsRun E F (s.newQuestion area topicname index question) projs
    loadEntriesRun E projs { s with questions := s.questions ++ [r.2] } r.1 es

/-- `load_questions(qdict, projs)` as it runs, with an `os.makedirs` in each `add_project`. -/
def loadQuestionsRun (E : Env) (s : Session) (F : Forest) (cat : Catalogue)
    (qdict : Option QDict) (projs : Option (List Project)) : Eff (Session × Forest) :=
  loadEntriesRun E (projectsOr cat projs) s F (entries (questionsOr cat qdict))

section

variable (E : Env) (w : World)

theorem addChainsRun_cases (F : Forest) (q : Question) (projs : List Project) :
    addChainsRun E F q projs w = .ok (addChains F q projs) w ∨
      addChainsRun E F q projs w = .error .osError w := by
  induction projs generalizing F q with
  | nil => exact .inl rfl
  | cons p ps ih =>
    by_cases h : E.canMakedirs
      ((q.addProject p (nodesForAnswerWithReview F q (some p)).2).folderForProject p) = true
    · simpa [addChainsRun, addChains, Question.ensureFolder, h] using ih _ _
    · simp [addChainsRun, Question.ensureFolder, h]

theorem addChainsRun_of_makedirs (hE : ∀ f, E.canMakedirs f = true) (F : Forest) (q : Question)
    (projs : List Project) : addChainsRun E F q projs w = .ok (addChains F q projs) w := by
  induction projs generalizing F q with
  | nil => rfl
  | cons p ps ih => simpa [addChainsRun, addChains, Question.ensureFolder, hE] using ih _ _

theorem loadEntriesRun_cases (projs : List Project) (s : Session) (F : Forest)
    (es : List (String × String × Nat × String)) :
    loadEntriesRun E projs s F es w = .ok (loadEntries projs s F es) w ∨
      loadEntriesRun E projs s F es w = .error .osError w := by
  induction es generalizing s F with
  | nil => exact .inl rfl
  | cons e es ih =>
    obtain ⟨area, topicname, index, question⟩ := e
    rcases addChainsRun_cases E w F (s.newQuestion area topicname index question) projs with h | h
    · simpa [loadEntriesRun, loadEntries, h] using ih _ _
    · simp [loadEntriesRun, h]

theorem loadEntriesRun_of_makedirs (hE : ∀ f, E.canMakedirs f = true) (projs : List Project)
    (s : Session) (F : Forest) (es : List (String × String × Nat × String)) :
    loadEntriesRun E projs s F es w = .ok (loadEntries projs s F es) w := by
  induction es generalizing s F with
  | nil => rfl
  | cons e es ih =>
    obtain ⟨area, topicname, index, question⟩ := e
    simpa [loadEntriesRun, loadEntries, addChainsRun_of_makedirs E w hE] using ih _ _

end

theorem projectsOr_ne_nil (cat : Catalogue) (projs : Option (List Project)) :
    projectsOr cat projs ≠ [] := by
  unfold projectsOr
  split
  · exact cat.projects_ne
  · assumption

section

variable (F : Forest) (q : Question)

theorem addChains_keeps {β : Type} (f : Question → β) (hf : ∀ q p n, f (q.addProject p n) = f q)
    (projs : List Project) : f (addChains F q projs).2 = f q := by
  induction projs generalizing F q with
  | nil => rfl
  | cons p ps ih => exact (ih _ _).trans (hf _ _ _)

theorem prefix_addChains (projs : List Project) : F.nodes <+: (addChains F q projs).1.nodes := by
  induction projs generalizing F q with
  | nil => exact List.prefix_refl _
  | cons p ps ih => exact (prefix_nodesForAnswerWithReview F q _).trans (ih _ _)

theorem length_addChains (projs : List Project) :
    (addChains F q projs).1.nodes.length = F.nodes.length + 2 * projs.length := by
  induction projs generalizing F q with
  | nil => rfl
  | cons p ps ih =>
    rw [addChains, ih, length_nodesForAnswerWithReview, List.length_cons]
    omega

theorem projects_addChains (projs : List Project) :
    (addChains F q projs).2.projects =
      if projs = [] then q.projects else some (q.projects.getD [] ++ projs) := by
  induction projs generalizing F q with
  | nil => rfl
  | cons p ps ih =>
    rw [addChains, ih]
    by_cases h : ps = [] <;> simp [h, Question.addProject]

theorem leaf_addChains (projs : List Project) (name : String)
    (h : (∃ p ∈ projs, p.name = name) ∨ ∃ m, q.leaf name = .ok m) :
    ∃ m, (addChains F q projs).2.leaf name = .ok m := by
  induction projs generalizing F q with
  | nil => simpa using h
  | cons p ps ih =>
    refine ih _ _ ?_
    by_cases hp : ∃ p' ∈ ps, p'.name = name
    · exact .inl hp
    · refine .inr (addProject_leaf q p _ name ?_)
      rcases h with ⟨p', hp', rfl⟩ | h
      · rcases List.mem_cons.1 hp' with rfl | hp'
        · exact .inl rfl
        · exact absurd ⟨p', hp', rfl⟩ hp
      · exact .inr h

end

def LeavesReviewed (F : Forest) (projs : List Project) (q : Question) : Prop :=
  ∀ name leaf, q.leaf name = .ok leaf →
    leaf < F.nodes.length ∧ ∃ p ∈ projs, p.name = name ∧ ReviewChain F leaf q p

namespace LeavesReviewed

variable {F G : Forest} {ps : List Project} {q : Question}

theorem extend (h : LeavesReviewed F ps q) (hF : F.nodes <+: G.nodes) :
    LeavesReviewed G ps q := fun name leaf hl =>
  let ⟨hlt, p, hp, hn, hpr⟩ := h name leaf hl
  ⟨lt_of_lt_of_le hlt hF.length_le, p, hp, hn, hpr.extend hF hlt⟩

theorem addChain (h : LeavesReviewed F ps q) (p : Project) :
    LeavesReviewed (nodesForAnswerWithReview F q (some p)).1 (ps ++ [p])
      (q.addProject p (nodesForAnswerWithReview F q (some p)).2) := by
  intro name leaf hl
  rcases (q.leaf_addProject p _ name leaf).1 hl with ⟨rfl, rfl⟩ | ⟨-, hl⟩
  · exact ⟨by simp [nodesForAnswerWithReview], p, by simp, rfl,
      (ReviewChain.of_nodesForAnswerWithReview F q p (List.prefix_refl _)).of_content rfl⟩
  · obtain ⟨hlt, p', hp', hn, hp⟩ := h name leaf hl
    refine ⟨by simp only [length_nodesForAnswerWithReview]; omega, p', by simp [hp'], hn, ?_⟩
    exact (hp.extend (prefix_nodesForAnswerWithReview F q _) hlt).of_content rfl

theorem addChains (h : LeavesReviewed F ps q) (projs : List Project) :
    LeavesReviewed (Session.addChains F q projs).1 (ps ++ projs) (Session.addChains F q projs).2 := by
  induction projs generalizing F ps q with
  | nil => simpa [Session.addChains] using h
  | cons p projs ih => simpa [Session.addChains] using ih (h.addChain p)

end LeavesReviewed

/-- What `load_questions` gives each question it makes, in the forest `F`: the projects, a leaf
for each project's name, and chains that keep their promises. -/
structure Loaded (F : Forest) (projs : List Project) (q : Question) : Prop where
  projects : q.projects = some projs
  leaf : ∀ p ∈ projs, ∃ m, q.leaf p.name = .ok m
  reviewed : LeavesReviewed F projs q

theorem Loaded.extend {F G : Forest} {projs : List Project} {q : Question}
    (h : Loaded F projs q) (hF : F.nodes <+: G.nodes) : Loaded G projs q :=
  ⟨h.projects, h.leaf, h.reviewed.extend hF⟩

theorem Loaded.addChains {q : Question} (hp : q.projects = none) (hl : q.leafnodes = none)
    {projs : List Project} (hne : projs ≠ []) (F : Forest) :
    Loaded (Session.addChains F q projs).1 projs (Session.addChains F q projs).2 where
  projects := by simp [projects_addChains, hne, hp]
  leaf p hp' := leaf_addChains F q projs p.name (.inl ⟨p, hp', rfl⟩)
  reviewed := by
    have h0 : LeavesReviewed F [] q := fun name leaf h => by simp [Question.leaf, hl] at h
    simpa using h0.addChains projs

theorem loadEntries_spec (projs : List Project) (hne : projs ≠ []) (s : Session) (F : Forest)
    (es : List (String × String × Nat × String)) :
    F.nodes <+: (loadEntries projs s F es).2.nodes ∧
      (loadEntries projs s F es).2.nodes.length =
        F.nodes.length + 2 * projs.length * es.length ∧
      ∃ qs, (loadEntries projs s F es).1 = { s with questions := s.questions ++ qs } ∧
        qs.map (fun q => (q.rootfolder, q.area, q.subtopic, q.id, q.content)) =
          es.map (fun e => (s.outputFolder, e.1, e.2.1, toString e.2.2.1, e.2.2.2)) ∧
        ∀ q ∈ qs, Loaded (loadEntries projs s F es).2 projs q := by
  induction es generalizing s F with
  | nil => exact ⟨List.prefix_refl _, by simp [loadEntries], [], by simp [loadEntries], rfl, by simp⟩
  | cons e es ih =>
    obtain ⟨area, topicname, index, question⟩ := e
    let q := s.newQuestion area topicname index question
    obtain ⟨hpre, hlen, qs, hs, hmap, hq⟩ :=
      ih { s with questions := s.questions ++ [(addChains F q projs).2] } (addChains F q projs).1
    refine ⟨(prefix_addChains F q projs).trans hpre, ?_, (addChains F q projs).2 :: qs,
      by simpa [loadEntries] using hs, ?_, ?_⟩
    · rw [loadEntries, hlen, length_addChains, List.length_cons, Nat.mul_succ]
      omega
    · rw [List.map_cons, List.map_cons, hmap,
        addChains_keeps F q (fun q => (q.rootfolder, q.area, q.subtopic, q.id, q.content))
          (fun _ _ _ => rfl)]
      rfl
    · intro q' hq'
      rcases List.mem_cons.1 hq' with rfl | hq'
      · exact (Loaded.addChains rfl rfl hne F).extend hpre
      · exact hq q' hq'

theorem exists_entry {s : Session} {es : List (String × String × Nat × String)} {qs : List Question}
    (hmap : qs.map (fun q => (q.rootfolder, q.area, q.subtopic, q.id, q.content)) =
      es.map (fun e => (s.outputFolder, e.1, e.2.1, toString e.2.2.1, e.2.2.2)))
    {q : Question} (hq : q ∈ qs) :
    ∃ e ∈ es, q.rootfolder = s.outputFolder ∧ q.area = e.1 ∧ q.subtopic = e.2.1 ∧
      q.id = toString e.2.2.1 := by
  have hm := List.mem_map_of_mem
    (fun q : Question => (q.rootfolder, q.area, q.subtopic, q.id, q.content)) hq
  rw [hmap] at hm
  obtain ⟨e, he, hqe⟩ := List.mem_map.1 hm
  simp only [Prod.mk.injEq] at hqe
  exact ⟨e, he, hqe.1.symm, hqe.2.1.symm, hqe.2.2.1.symm, hqe.2.2.2.1.symm⟩

theorem loadQuestionsRun_cases (E : Env) (s : Session) (F : Forest) (cat : Catalogue)
    (qdict : Option QDict) (projs : Option (List Project)) (w : World) :
    s.loadQuestionsRun E F cat qdict projs w = .ok (s.loadQuestions F cat qdict projs) w ∨
      s.loadQuestionsRun E F cat qdict projs w = .error .osError w :=
  loadEntriesRun_cases E w _ s F _

example : ((Session.loadQuestions {} Forest.empty ⟨[], [Sample.jobScheduler], by simp⟩
    (some [("Execution", [("Gaps", ["Why?", "How?"])])]) none).1.questions.map
      fun q => (q.id, q.projects)) =
    [("0", some [Sample.jobScheduler]), ("1", some [Sample.jobScheduler])] := by
  decide

namespace Sample

def catalogue : Catalogue :=
  ⟨[], [Core.Sample.jobScheduler, Core.Sample.memoryAutoscaler], by simp⟩

def qdict : QDict :=
  [("Project Direction", [("Success Metrics",
    ["How do you set success metrics?", "How do you drive them?"])])]

def first : Question :=
  (Session.loadQuestions {} Forest.empty catalogue (some qdict) none).1.questions.headD default

end Sample


end Session

end AnswerChain.Bot
