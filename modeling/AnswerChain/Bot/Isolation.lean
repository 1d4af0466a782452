import AnswerChain.Bot.AnswerIds
import AnswerChain.Core.Frames

namespace AnswerChain.Bot

open AnswerChain.Python AnswerChain.Core

structure ChainsWithin (F : Forest) (lo hi : Nat) (q : Question) : Prop where
  within : ∀ name leaf, q.leaf name = .ok leaf → ∀ n ∈ F.path leaf, lo ≤ n ∧ n < hi
  apart : ∀ a b la lb, a ≠ b → q.leaf a = .ok la → q.leaf b = .ok lb →
    (F.path la).Disjoint (F.path lb)

def ChainsApart (F : Forest) (q q' : Question) : Prop :=
  ∀ a b la lb, q.leaf a = .ok la → q'.leaf b = .ok lb → (F.path la).Disjoint (F.path lb)

namespace ChainsWithin

variable {F G : Forest} {lo hi : Nat} {q : Question}

theorem fresh (h : q.leafnodes = none) (F : Forest) (lo hi : Nat) : ChainsWithin F lo hi q :=
  ⟨fun _ _ hl => by simp [Question.leaf, h] at hl,
    fun _ _ _ _ _ hl => by simp [Question.leaf, h] at hl⟩

theorem mono {lo' hi' : Nat} (h : ChainsWithin F lo hi q) (hlo : lo' ≤ lo) (hhi : hi ≤ hi') :
    ChainsWithin F lo' hi' q :=
  ⟨fun a l hl n hn => (h.within a l hl n hn).imp (hlo.trans ·) (lt_of_lt_of_le · hhi), h.apart⟩

theorem extend (h : ChainsWithin F lo hi q) (hhi : hi ≤ F.nodes.length) (hF : F.nodes <+: G.nodes) :
    ChainsWithin G lo hi q := by
  have hpath : ∀ a l, q.leaf a = .ok l → G.path l = F.path l := fun a l hl =>
    F.path_extend hF (lt_of_lt_of_le (h.within a l hl l (F.mem_path l)).2 hhi)
  refine ⟨fun a l hl => hpath a l hl ▸ h.within a l hl, fun a b la lb hab ha hb => ?_⟩
  rw [hpath a la ha, hpath b lb hb]
  exact h.apart a b la lb hab ha hb

theorem chainsApart {q' : Question} {mid : Nat} (h : ChainsWithin F lo mid q)
    (h' : ChainsWithin F mid hi q') : ChainsApart F q q' := fun a b la lb ha hb n hn hn' => by
  have := (h.within a la ha n hn).2
  have := (h'.within b lb hb n hn').1
  omega

theorem addChain (h : ChainsWithin F lo F.nodes.length q) (hlo : lo ≤ F.nodes.length)
    (p : Project) :
    ChainsWithin (nodesForAnswerWithReview F q (some p)).1 lo
      (nodesForAnswerWithReview F q (some p)).1.nodes.length
      (q.addProject p (nodesForAnswerWithReview F q (some p)).2) := by
  have hnew : ∀ n ∈ (nodesForAnswerWithReview F q (some p)).1.path
      (nodesForAnswerWithReview F q (some p)).2, F.nodes.length ≤ n ∧ n < F.nodes.length + 2 := by
    rw [nodesForAnswerWithReview_path]
    intro n hn
    simp only [List.mem_cons, List.mem_singleton, List.not_mem_nil, or_false] at hn
    omega
  have h' := h.extend le_rfl (prefix_nodesForAnswerWithReview F q (some p))
  simp only [length_nodesForAnswerWithReview]
  constructor
  · intro a l hl n hn
    rcases (q.leaf_addProject p _ a l).1 hl with ⟨-, rfl⟩ | ⟨-, hl⟩
    · have := hnew n hn
      omega
    · have := h'.within a l hl n hn
      omega
  · intro a b la lb hab ha hb
    rcases (q.leaf_addProject p _ a la).1 ha with ⟨rfl, rfl⟩ | ⟨-, ha⟩ <;>
      rcases (q.leaf_addProject p _ b lb).1 hb with ⟨rfl, rfl⟩ | ⟨-, hb⟩
    · exact absurd rfl hab
    · exact fun n hn hn' => absurd (hnew n hn).1 (by have := h'.within b lb hb n hn'; omega)
    · exact fun n hn hn' => absurd (hnew n hn').1 (by have := h'.within a la ha n hn; omega)
    · exact h'.apart a b la lb hab ha hb

theorem addChains (projs : List Project) (F : Forest) (q : Question)
    (h : ChainsWithin F lo F.nodes.length q) (hlo : lo ≤ F.nodes.length) :
    ChainsWithin (Session.addChains F q projs).1 lo (Session.addChains F q projs).1.nodes.length
      (Session.addChains F q projs).2 := by
  induction projs generalizing F q with
  | nil => exact h
  | cons p ps ih =>
    exact ih _ _ (h.addChain hlo p) (by simp only [length_nodesForAnswerWithReview]; omega)

end ChainsWithin

namespace Session

theorem prefix_loadEntries (projs : List Project) (s : Session) (F : Forest)
    (es : List (String × String × Nat × String)) :
    F.nodes <+: (loadEntries projs s F es).2.nodes := by
  induction es generalizing s F with
  | nil => exact List.prefix_refl _
  | cons e es ih =>
    obtain ⟨area, topicname, index, question⟩ := e
    exact (prefix_addChains F _ projs).trans (ih _ _)

theorem loadEntries_chainsWithin (projs : List Project) (s : Session) (F : Forest)
    (es : List (String × String × Nat × String)) :
    ∃ qs, (loadEntries projs s F es).1.questions = s.questions ++ qs ∧
      (∀ q ∈ qs, ChainsWithin (loadEntries projs s F es).2 F.nodes.length
        (loadEntries projs s F es).2.nodes.length q) ∧
      qs.Pairwise (ChainsApart (loadEntries projs s F es).2) := by
  induction es generalizing s F with
  | nil => exact ⟨[], by simp [loadEntries], by simp, List.Pairwise.nil⟩
  | cons e es ih =>
    obtain ⟨area, topicname, index, question⟩ := e
    let r := addChains F (s.newQuestion area topicname index question) projs
    obtain ⟨qs, hs, hin, hpw⟩ := ih { s with questions := s.questions ++ [r.2] } r.1
    have hpre := prefix_loadEntries projs { s with questions := s.questions ++ [r.2] } r.1 es
    have hr : ChainsWithin (loadEntries projs { s with questions := s.questions ++ [r.2] } r.1 es).2
        F.nodes.length r.1.nodes.length r.2 :=
      ((ChainsWithin.fresh rfl F _ _).addChains projs F _ le_rfl).extend le_rfl hpre
    refine ⟨r.2 :: qs, by simpa [loadEntries] using hs, fun q hq => ?_,
      .cons (fun q hq => hr.chainsApart (hin q hq)) hpw⟩
    rcases List.mem_cons.1 hq with rfl | hq
    · exact hr.mono le_rfl hpre.length_le
    · exact (hin q hq).mono (prefix_addChains F _ projs).length_le le_rfl

theorem loadQuestions_chains_apart (s : Session) (F : Forest) (cat : Catalogue)
    (qdict : Option QDict) (projs : Option (List Project)) :
    ∃ qs, (s.loadQuestions F cat qdict projs).1.questions = s.questions ++ qs ∧
      (∀ q ∈ qs, ChainsWithin (s.loadQuestions F cat qdict projs).2 F.nodes.length
        (s.loadQuestions F cat qdict projs).2.nodes.length q) ∧
      qs.Pairwise (ChainsApart (s.loadQuestions F cat qdict projs).2) :=
  loadEntries_chainsWithin _ s F _

theorem loadQuestions_tasks_apart (s : Session) (F : Forest) (cat : Catalogue)
    (qdict : Option QDict) (projs : Option (List Project)) (i j : Nat) (q q' : Question)
    (hq : ((s.loadQuestions F cat qdict projs).1.questions.drop s.questions.length)[i]? = some q)
    (hq' : ((s.loadQuestions F cat qdict projs).1.questions.drop s.questions.length)[j]? = some q')
    (p : Project) (b : String) (lb : Nat) (hne : i ≠ j ∨ p.name ≠ b) (hlb : q'.leaf b = .ok lb)
    (E : Env) (w : World) :
    ∀ n ∈ (s.loadQuestions F cat qdict projs).2.path lb,
      (finalWorld (q._answerForProject E (s.loadQuestions F cat qdict projs).2 p w)).store n =
        w.store n := by
  obtain ⟨qs, hs, hin, hpw⟩ :=
    loadEntries_chainsWithin (projectsOr cat projs) s F (entries (questionsOr cat qdict))
  rw [loadQuestions, hs, List.drop_left] at hq hq'
  obtain ⟨hi, rfl⟩ := List.getElem?_eq_some_iff.1 hq
  obtain ⟨hj, rfl⟩ := List.getElem?_eq_some_iff.1 hq'
  intro n hn
  refine answerForProject_store (fun la hla hn' => ?_) E w
  rcases Nat.lt_trichotomy i j with hij | rfl | hij
  · exact List.pairwise_iff_getElem.1 hpw i j hi hj hij _ _ _ _ hla hlb hn' hn
  · exact (hin _ (List.getElem_mem hi)).apart _ _ _ _ (hne.resolve_left (absurd rfl)) hla hlb hn' hn
  · exact List.pairwise_iff_getElem.1 hpw j i hj hi hij _ _ _ _ hlb hla hn hn'

namespace Sample

def second : Question :=
  (Session.loadQuestions {} Forest.empty catalogue (some qdict) none).1.questions.getD 1 default

end Sample

theorem loadQuestions_tasks_apart_sample :
    ((Session.loadQuestions {} Forest.empty Sample.catalogue (some Sample.qdict) none).1.questions.drop
        ({} : Session).questions.length)[0]? = some Sample.first ∧
      ((Session.loadQuestions {} Forest.empty Sample.catalogue (some Sample.qdict) none).1.questions.drop
        ({} : Session).questions.length)[1]? = some Sample.second ∧
      Sample.second.leaf Core.Sample.jobScheduler.name = .ok 5 ∧
      ∀ n ∈ (Session.loadQuestions {} Forest.empty Sample.catalogue (some Sample.qdict) none).2.path 5,
        (finalWorld (Sample.first._answerForProject Core.Sample.replies
          (Session.loadQuestions {} Forest.empty Sample.catalogue (some Sample.qdict) none).2
          Core.Sample.jobScheduler Core.Sample.world)).store n = Core.Sample.world.store n :=
  ⟨by decide, by decide, rfl, loadQuestions_tasks_apart {} Forest.empty Sample.catalogue
    (some Sample.qdict) none 0 1 Sample.first Sample.second (by decide) (by decide)
    Core.Sample.jobScheduler Core.Sample.jobScheduler.name 5 (.inl (by decide)) rfl
    Core.Sample.replies Core.Sample.world⟩

def RelativeTitles (G : Forest) (lo : Nat) : Prop :=
  ∀ n, lo ≤ n → n < G.nodes.length →
    startsWithSlash (G.get n).title = false ∧ NoDotDot (G.get n).title

theorem RelativeTitles.trans {F G : Forest} {lo : Nat} (hF : RelativeTitles F lo)
    (hFG : F.nodes <+: G.nodes) (hG : RelativeTitles G F.nodes.length) : RelativeTitles G lo :=
  fun n hlo hn => by
    by_cases h : n < F.nodes.length
    · rw [F.get_extend hFG h]
      exact hF n hlo h
    · exact hG n (Nat.not_lt.1 h) hn

theorem relativeTitles_nodesForAnswerWithReview (F : Forest) (q : Question) (p : Option Project) :
    RelativeTitles (nodesForAnswerWithReview F q p).1 F.nodes.length := fun n hlo hn => by
  rw [length_nodesForAnswerWithReview] at hn
  obtain rfl | rfl : n = F.nodes.length ∨ n = F.nodes.length + 1 := by omega
  all_goals
    simp [nodesForAnswerWithReview, Forest.get_push, instructionsForQuestion2, NodeInfo.new]
    decide

theorem relativeTitles_addChains (F : Forest) (q : Question) (projs : List Project) :
    RelativeTitles (addChains F q projs).1 F.nodes.length := by
  induction projs generalizing F q with
  | nil => exact fun n h1 h2 => absurd h2 (Nat.not_lt.2 h1)
  | cons p ps ih =>
    exact (relativeTitles_nodesForAnswerWithReview F q _).trans (prefix_addChains _ _ ps) (ih _ _)

theorem relativeTitles_loadEntries (projs : List Project) (s : Session) (F : Forest)
    (es : List (String × String × Nat × String)) :
    RelativeTitles (loadEntries projs s F es).2 F.nodes.length := by
  induction es generalizing s F with
  | nil => exact fun n h1 h2 => absurd h2 (Nat.not_lt.2 h1)
  | cons e es ih =>
    obtain ⟨area, topicname, index, question⟩ := e
    exact (relativeTitles_addChains F _ projs).trans (prefix_loadEntries _ _ _ es) (ih _ _)

def PathKeys (qdict : QDict) : Prop :=
  PlainKeys qdict ∧ ∀ a ∈ qdict, '/' ∉ a.1.data ∧ ∀ t ∈ a.2, '/' ∉ t.1.data

instance (qdict : QDict) : Decidable (PathKeys qdict) := inferInstanceAs (Decidable (_ ∧ _))

theorem PathKeys.entries {qdict : QDict} (h : PathKeys qdict) :
    ∀ e ∈ Session.entries qdict, '/' ∉ e.1.data ∧ '/' ∉ e.2.1.data := by
  intro e he
  simp only [Session.entries, List.mem_flatMap, List.mem_map] at he
  obtain ⟨a, ha, t, ht, iq, -, rfl⟩ := he
  exact ⟨(h.2 a ha).1, (h.2 a ha).2 t ht⟩

theorem not_mem_joinWords {s : String} (h : '/' ∉ s.data) : '/' ∉ (joinWords "_" s).data :=
  fun hm => (mem_joinWords hm).elim h (by decide)

theorem loadEntries_folders {projs : List Project} (hne : projs ≠ []) (s : Session) (F : Forest)
    {es : List (String × String × Nat × String)} (hes : ∀ e ∈ es, '/' ∉ e.1.data ∧ '/' ∉ e.2.1.data) :
    ∃ qs, (loadEntries projs s F es).1 = { s with questions := s.questions ++ qs } ∧
      ∀ q ∈ qs, q.rootfolder = s.outputFolder ∧ PlainQuestion q ∧ '/' ∉ q.baseId.data := by
  obtain ⟨-, -, qs, hs, hmap, -⟩ := loadEntries_spec projs hne s F es
  refine ⟨qs, hs, fun q hq => ?_⟩
  obtain ⟨e, he, hr, ha, hsub, hid⟩ := exists_entry hmap hq
  have hA := not_mem_joinWords (ha ▸ (hes e he).1)
  have hB := not_mem_joinWords (hsub ▸ (hes e he).2)
  have hI : '/' ∉ q.id.data := hid ▸ (not_mem_toString _).1
  refine ⟨hr, ⟨startsWithSlash_of_not_mem hA, endsWithSlash_of_not_mem hI⟩, ?_⟩
  simp [Question.baseId, show "_____".data = ['_', '_', '_', '_', '_'] from rfl, hA, hB, hI]

theorem loadQuestions_files_apart (s : Session) (F : Forest) (cat : Catalogue)
    (qdict : Option QDict) (projs : Option (List Project))
    (hkeys : PathKeys (questionsOr cat qdict)) (i j : Nat) (q q' : Question)
    (hq : ((s.loadQuestions F cat qdict projs).1.questions.drop s.questions.length)[i]? = some q)
    (hq' : ((s.loadQuestions F cat qdict projs).1.questions.drop s.questions.length)[j]? = some q')
    (p p' : Project) (hp : FolderName p) (hp' : FolderName p')
    (hne : i ≠ j ∨ joinWords "" p.name ≠ joinWords "" p'.name)
    (lb : Nat) (hlb : q'.leaf p'.name = .ok lb) (E : Env) (w : World) :
    ∀ k, q'.answerFiles (s.loadQuestions F cat qdict projs).2 p' lb k →
      (finalWorld (q._answerForProject E (s.loadQuestions F cat qdict projs).2 p w)).files k =
        w.files k := by
  obtain ⟨qs, hs, hnodup, hid⟩ :=
    loadEntries_answerIds (projectsOr_ne_nil cat projs) s F hkeys.1.entries
  obtain ⟨qs₂, hs₂, hplain⟩ := loadEntries_folders (projectsOr_ne_nil cat projs) s F hkeys.entries
  obtain ⟨qs₃, hs₃, hin, -⟩ :=
    loadEntries_chainsWithin (projectsOr cat projs) s F (entries (questionsOr cat qdict))
  rw [List.append_cancel_left (congrArg Session.questions (hs₂.symm.trans hs))] at hplain
  rw [List.append_cancel_left (hs₃.symm.trans (congrArg Session.questions hs))] at hin
  have ht := relativeTitles_loadEntries (projectsOr cat projs) s F (entries (questionsOr cat qdict))
  have hkey : ∀ q ∈ qs, ∀ p : Project, FolderName p → ∀ l k,
      q.leaf p.name = .ok l → q.answerFiles (s.loadQuestions F cat qdict projs).2 p l k →
        ∃ X, k.2 = (fileKey s.outputFolder).2 ++ q.baseId.data :: (joinWords "" p.name).data :: X :=
    fun q hq p hp l k hl hk => (hplain q hq).1 ▸ answerFiles_key (hplain q hq).2.1
      (hplain q hq).2.2 hp (fun n hn => ht n ((hin q hq).within _ l hl n hn).1
        ((hin q hq).within _ l hl n hn).2) hk
  simp only [loadQuestions, hs, List.drop_left] at hq hq'
  obtain ⟨hi, rfl⟩ := List.getElem?_eq_some_iff.1 hq
  obtain ⟨hj, rfl⟩ := List.getElem?_eq_some_iff.1 hq'
  intro k hk
  refine answerForProject_files (fun la hla hk' => ?_) E w
  obtain ⟨X, hX⟩ := hkey _ (List.getElem_mem hi) p hp la k hla hk'
  obtain ⟨X', hX'⟩ := hkey _ (List.getElem_mem hj) p' hp' lb k hlb hk
  have hparts := List.append_cancel_left (hX.symm.trans hX')
  simp only [List.cons.injEq] at hparts
  rcases hne with h | h
  · refine h ((hnodup.getElem_inj_iff).1
      (hid _ (List.getElem_mem hi) _ (List.getElem_mem hj) p p ?_).1)
    rw [Question.answerId, Question.answerId, String.ext hparts.1]
  · exact h (String.ext hparts.2.1)

theorem loadQuestions_files_apart_sample :
    PathKeys (questionsOr Sample.catalogue (some Sample.qdict)) ∧
      ((Session.loadQuestions {} Forest.empty Sample.catalogue (some Sample.qdict) none).1.questions.drop
        ({} : Session).questions.length)[0]? = some Sample.first ∧
      ((Session.loadQuestions {} Forest.empty Sample.catalogue (some Sample.qdict) none).1.questions.drop
        ({} : Session).questions.length)[1]? = some Sample.second ∧
      FolderName Core.Sample.memoryAutoscaler ∧ FolderName Core.Sample.jobScheduler ∧
      Sample.second.leaf Core.Sample.jobScheduler.name = .ok 5 ∧
      ∀ k, Sample.second.answerFiles
          (Session.loadQuestions {} Forest.empty Sample.catalogue (some Sample.qdict) none).2
          Core.Sample.jobScheduler 5 k →
        (finalWorld (Sample.first._answerForProject Core.Sample.replies
          (Session.loadQuestions {} Forest.empty Sample.catalogue (some Sample.qdict) none).2
          Core.Sample.memoryAutoscaler Core.Sample.world)).files k = Core.Sample.world.files k :=
  ⟨by decide, by decide, by decide, by decide, by decide, rfl, loadQuestions_files_apart {}
    Forest.empty Sample.catalogue (some Sample.qdict) none (by decide) 0 1 Sample.first
    Sample.second (by decide) (by decide) Core.Sample.memoryAutoscaler Core.Sample.jobScheduler
    (by decide) (by decide) (.inl (by decide)) 5 rfl Core.Sample.replies Core.Sample.world⟩

end Session

end AnswerChain.Bot
