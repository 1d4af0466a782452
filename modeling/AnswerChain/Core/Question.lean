import AnswerChain.Core.World

namespace AnswerChain.Core

open AnswerChain.Python

structure Project where
  company : String
  name : String
  timeline : String
  description : String := ""
  deriving DecidableEq, Repr, Inhabited

/-- The `Question` dataclass without its lock, which the orchestrator keeps per question. `None`
fields are `none`; `leafnodes` maps a project name to the leaf of its chain. -/
structure Question where
  rootfolder : String
  area : String
  subtopic : String
  content : String
  id : String
  tags : Option (List String) := none
  projects : Option (List Project) := none
  leafnodes : Option (List (String × Nat)) := none
  deriving DecidableEq, Repr, Inhabited

namespace Question

variable (q : Question)

def baseId : String := joinWords "_" q.area ++ "_____" ++ joinWords "_" q.subtopic ++ "_____" ++ q.id

/-- The key of `threads`: `self.base_id + "/" + project.name`. -/
def answerId (p : Project) : String := q.baseId ++ "/" ++ p.name

/-- `folder_for_project(project)`: the `isdir` check only prints; `ensure` is `ensureFolder`. -/
def folderForProject (p : Project) : String :=
  let area := joinWords "_" q.area
  let subtopic := joinWords "_" q.subtopic
  let pname := joinWords "" p.name
  pathJoin q.rootfolder [area ++ "_____" ++ subtopic ++ "_____" ++ q.id, pname]

def pathForProjectFile (p : Project) (name extension : String) : String :=
  pathJoin (q.folderForProject p) [if extension = "" then name else name ++ "." ++ extension]

def leaf (name : String) : Except PyError Nat :=
  match q.leafnodes with
  | none => .error .typeError
  | some d => match d.lookup name with
    | some n => .ok n
    | none => .error .keyError

/-- The attributes `add_project(proj, leaf)` sets; the lock is the orchestrator's, and the folder
it then makes is `ensureFolder`. -/
def addProject (p : Project) (n : Nat) : Question :=
  { q with projects := some (q.projects.getD [] ++ [p]),
           leafnodes := some (dictSet (q.leafnodes.getD []) p.name n) }

/-- `folder_for_project(project, True)`: the folder, which `os.makedirs` makes when it is missing. -/
def ensureFolder (E : Env) (p : Project) : Eff String := do
  makedirs E (q.folderForProject p)
  pure (q.folderForProject p)

theorem leaf_addProject (p : Project) (n : Nat) (name : String) (m : Nat) :
    (q.addProject p n).leaf name = .ok m ↔
      name = p.name ∧ m = n ∨ name ≠ p.name ∧ q.leaf name = .ok m := by
  simp only [leaf, addProject, lookup_dictSet]
  by_cases h : name = p.name
  · simp [h, eq_comm]
  · cases q.leafnodes <;> simp [h]

def toJson : Json :=
  .obj [("qinfo", .obj [("area", .str q.area), ("subtopic", .str q.subtopic), ("id", .str q.id),
    ("tags", .arr ((q.tags.getD []).map .str)), ("content", .str q.content)])]

theorem folderForProject_eq_pathJoin (p : Project) :
    q.folderForProject p = pathJoin q.rootfolder [q.baseId, joinWords "" p.name] := rfl

end Question

section

variable {q : Question}

theorem baseId_data_ne_nil : q.baseId.data ≠ [] := by
  simp [Question.baseId]

theorem baseId_startsWithSlash (h : startsWithSlash (joinWords "_" q.area) = false) :
    startsWithSlash q.baseId = false := by
  unfold Question.baseId
  simp only [String.append_assoc]
  by_cases ha : (joinWords "_" q.area).data = []
  · rw [show joinWords "_" q.area = "" from String.ext ha, String.empty_append,
      startsWithSlash_append _ (by decide)]
    rfl
  · rw [startsWithSlash_append _ ha, h]

theorem baseId_endsWithSlash (h : endsWithSlash q.id = false) : endsWithSlash q.baseId = false := by
  unfold Question.baseId
  by_cases hi : q.id.data = []
  · rw [show q.id = "" from String.ext hi, String.append_empty, endsWithSlash_append _ (by decide)]
    rfl
  · rw [endsWithSlash_append _ hi, h]

def PlainName (p : Project) : Prop :=
  (∀ c ∈ p.name.data, isSpace c = false) ∧ startsWithSlash p.name = false

def PlainQuestion (q : Question) : Prop :=
  startsWithSlash (joinWords "_" q.area) = false ∧ endsWithSlash q.id = false

instance : DecidablePred PlainName := fun _ => inferInstanceAs (Decidable (_ ∧ _))

instance : DecidablePred PlainQuestion := fun _ => inferInstanceAs (Decidable (_ ∧ _))

theorem folderForProject_eq_answerId {p : Project} (hq : PlainQuestion q) (hp : PlainName p) :
    q.folderForProject p = q.rootfolder ++ rootSep q.rootfolder ++ q.answerId p := by
  rw [Question.folderForProject_eq_pathJoin, joinWords_empty_of_forall hp.1,
    pathJoin_two (baseId_startsWithSlash hq.1) baseId_data_ne_nil (baseId_endsWithSlash hq.2) hp.2]
  simp [Question.answerId, String.append_assoc]

def FolderName (p : Project) : Prop :=
  '/' ∉ (joinWords "" p.name).data ∧ (joinWords "" p.name).data ≠ [] ∧
    (joinWords "" p.name).data ≠ ['.'] ∧ (joinWords "" p.name).data ≠ ['.', '.']

instance : DecidablePred FolderName := fun _ => inferInstanceAs (Decidable (_ ∧ _ ∧ _ ∧ _))

theorem fileKey_pathForProjectFile {p : Project} (hq : PlainQuestion q) (hb : '/' ∉ q.baseId.data)
    (hp : FolderName p) {name ext : String}
    (hn : startsWithSlash (if ext = "" then name else name ++ "." ++ ext) = false)
    (hnd : NoDotDot (if ext = "" then name else name ++ "." ++ ext)) :
    ∃ X, (fileKey (q.pathForProjectFile p name ext)).2 =
      (fileKey q.rootfolder).2 ++ q.baseId.data :: (joinWords "" p.name).data :: X := by
  have hfold : q.folderForProject p = q.rootfolder ++ rootSep q.rootfolder ++ q.baseId ++ "/" ++
      joinWords "" p.name := by
    rw [Question.folderForProject_eq_pathJoin, pathJoin_two (baseId_startsWithSlash hq.1)
      baseId_data_ne_nil (baseId_endsWithSlash hq.2) (startsWithSlash_of_not_mem hp.1)]
  have hend : endsWithSlash (q.folderForProject p) = false := by
    rw [hfold, endsWithSlash_append _ hp.2.1, endsWithSlash_of_not_mem hp.1]
  have hne : q.folderForProject p ≠ "" := fun h => by
    have := congrArg String.data (hfold.symm.trans h)
    simp [hp.2.1] at this
  refine ⟨(fileKey (if ext = "" then name else name ++ "." ++ ext)).2, ?_⟩
  simp only [Question.pathForProjectFile, pathJoin_cons, pathJoin_nil, hn, hend, hne,
    Bool.false_eq_true, if_false, or_self]
  have hu : '_' ∈ q.baseId.data := by simp [Question.baseId]
  have hdot : q.baseId.data ≠ ['.'] := fun h => absurd (h ▸ hu) (by decide)
  have hdd : q.baseId.data ≠ ['.', '.'] := fun h => absurd (h ▸ hu) (by decide)
  rw [fileKey_sep _ hnd, hfold, fileKey_sep _ (noDotDot_of_not_mem hp.1 hp.2.2.2),
    fileKey_rootSep _ (noDotDot_of_not_mem hb hdd), fileKey_component hb baseId_data_ne_nil hdot hdd,
    fileKey_component hp.1 hp.2.1 hp.2.2.1 hp.2.2.2]
  simp

end

namespace Sample

def question : Question :=
  { rootfolder := "./responses", area := "Project Direction",
    subtopic := "Setting and Driving Metrics", id := "0",
    content := "How did you identified success metrics for a complex project?" }

def memoryAutoscaler : Project := ⟨"Google", "Memory Autoscaler", "", ""⟩

def memoryAutoscalerNoSpace : Project := ⟨"Google", "MemoryAutoscaler", "", ""⟩

def jobScheduler : Project := ⟨"Google", "JobSchedulerService", "", ""⟩

end Sample

end AnswerChain.Core
