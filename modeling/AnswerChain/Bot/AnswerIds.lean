import AnswerChain.Bot.Session
import AnswerChain.Core.Liveness

namespace AnswerChain.Bot

open AnswerChain.Python AnswerChain.Core

theorem answerId_parts {q q' : Question} {p p' : Project}
    (hq : singleSep (joinWords "_" q.area).data ∧ singleSep (joinWords "_" q.subtopic).data ∧
      '/' ∉ q.id.data)
    (hq' : singleSep (joinWords "_" q'.area).data ∧ singleSep (joinWords "_" q'.subtopic).data ∧
      '/' ∉ q'.id.data)
    (h : q.answerId p = q'.answerId p') :
    (joinWords "_" q.area, joinWords "_" q.subtopic, q.id) =
      (joinWords "_" q'.area, joinWords "_" q'.subtopic, q'.id) ∧ p.name = p'.name := by
  have hd := congrArg String.data h
  simp only [Question.answerId, Question.baseId, String.data_append, List.append_assoc,
    show "_____".data = ['_', '_', '_', '_', '_'] from rfl, show "/".data = ['/'] from rfl,
    List.cons_append, List.nil_append] at hd
  obtain ⟨hA, hd⟩ := eq_of_singleSep hq.1 hq'.1 hd
  simp only [List.cons.injEq, true_and] at hd
  obtain ⟨hB, hd⟩ := eq_of_singleSep hq.2.1 hq'.2.1 hd
  simp only [List.cons.injEq, true_and] at hd
  obtain ⟨hI, hN⟩ := eq_of_append_cons hq.2.2 hq'.2.2 hd
  exact ⟨by rw [String.ext hA, String.ext hB, String.ext hI], String.ext hN⟩

structure PlainEntries (es : List (String × String × Nat × String)) : Prop where
  chars : ∀ e ∈ es, '_' ∉ e.1.data ∧ '_' ∉ e.2.1.data
  nodup : (es.map fun e => (joinWords "_" e.1, joinWords "_" e.2.1, e.2.2.1)).Nodup

theorem loadEntries_answerIds {projs : List Project} (hne : projs ≠ []) (s : Session) (F : Forest)
    {es : List (String × String × Nat × String)} (hes : PlainEntries es) :
    ∃ qs, (Session.loadEntries projs s F es).1 = { s with questions := s.questions ++ qs } ∧
      qs.Nodup ∧ ∀ q ∈ qs, ∀ q' ∈ qs, ∀ p p' : Project, q.answerId p = q'.answerId p' →
        q = q' ∧ p.name = p'.name := by
  obtain ⟨-, -, qs, hs, hmap, -⟩ := Session.loadEntries_spec projs hne s F es
  have hkey : qs.map (fun q => (joinWords "_" q.area, joinWords "_" q.subtopic, q.id)) =
      (es.map fun e => (joinWords "_" e.1, joinWords "_" e.2.1, e.2.2.1)).map
        fun k => (k.1, k.2.1, toString k.2.2) := by
    have := congrArg (List.map fun r => (joinWords "_" r.2.1, joinWords "_" r.2.2.1, r.2.2.2.1))
      hmap
    simpa [List.map_map, Function.comp_def] using this
  have hnodup : (qs.map fun q => (joinWords "_" q.area, joinWords "_" q.subtopic, q.id)).Nodup := by
    rw [hkey]
    refine hes.nodup.map fun a b h => ?_
    simp only [Prod.mk.injEq] at h
    exact Prod.ext h.1 (Prod.ext h.2.1 (toString_injective h.2.2))
  have hplain : ∀ q ∈ qs, singleSep (joinWords "_" q.area).data ∧
      singleSep (joinWords "_" q.subtopic).data ∧ '/' ∉ q.id.data := by
    intro q hq
    obtain ⟨e, he, -, ha, hsub, hid⟩ := Session.exists_entry hmap hq
    rw [ha, hsub, hid]
    exact ⟨singleSep_joinWords (hes.chars e he).1, singleSep_joinWords (hes.chars e he).2,
      (not_mem_toString _).1⟩
  refine ⟨qs, hs, hnodup.of_map _, fun q hq q' hq' p p' h => ?_⟩
  obtain ⟨hk, hn⟩ := answerId_parts (hplain q hq) (hplain q' hq') h
  exact ⟨List.inj_on_of_nodup_map hnodup hq hq' hk, hn⟩

/-- Keys of a dict of questions that `load_questions` tells apart: no `_` in an area or a
subtopic, the areas distinct once cleaned, and the subtopics of each area too. A Python dict
has distinct keys; these ask for distinct cleaned keys. -/
def PlainKeys (qdict : QDict) : Prop :=
  (∀ a ∈ qdict, '_' ∉ a.1.data ∧ ∀ t ∈ a.2, '_' ∉ t.1.data) ∧
    (qdict.map fun a => joinWords "_" a.1).Nodup ∧
    ∀ a ∈ qdict, (a.2.map fun t => joinWords "_" t.1).Nodup

instance (qdict : QDict) : Decidable (PlainKeys qdict) :=
  inferInstanceAs (Decidable (_ ∧ _ ∧ _))

theorem nodup_flatMap_of_key {α β κ : Type} {l : List α} {f : α → List β} (key : α → κ)
    (g : β → κ) (hk : (l.map key).Nodup) (hg : ∀ a ∈ l, ∀ b ∈ f a, g b = key a)
    (hf : ∀ a ∈ l, (f a).Nodup) : (l.flatMap f).Nodup := by
  refine List.nodup_flatMap.2 ⟨hf, (List.pairwise_map.1 hk).imp_of_mem ?_⟩
  intro a b ha hb hne x hxa hxb
  exact hne ((hg a ha x hxa).symm.trans (hg b hb x hxb))

theorem PlainKeys.entries {qdict : QDict} (h : PlainKeys qdict) :
    PlainEntries (Session.entries qdict) where
  chars e he := by
    simp only [Session.entries, List.mem_flatMap, List.mem_map] at he
    obtain ⟨a, ha, t, ht, iq, -, rfl⟩ := he
    exact ⟨(h.1 a ha).1, (h.1 a ha).2 t ht⟩
  nodup := by
    simp only [Session.entries, List.map_flatMap, List.map_map]
    refine nodup_flatMap_of_key (fun a => joinWords "_" a.1) (fun k => k.1) h.2.1
      (fun a _ k hk => ?_) fun a ha => ?_
    · simp only [List.mem_flatMap, List.mem_map, Function.comp_apply] at hk
      obtain ⟨t, -, iq, -, rfl⟩ := hk
      rfl
    · refine nodup_flatMap_of_key (fun t => joinWords "_" t.1) (fun k => k.2.1) (h.2.2 a ha)
        (fun t _ k hk => ?_) fun t _ => ?_
      · simp only [List.mem_map, Function.comp_apply] at hk
        obtain ⟨iq, -, rfl⟩ := hk
        rfl
      · refine List.Nodup.of_map (fun k => k.2.2) ?_
        simpa [List.map_map, Function.comp_def] using List.nodup_range t.2.length

theorem loadQuestions_answerIds_distinct (s : Session) (F : Forest) (cat : Catalogue)
    (qdict : Option QDict) (projs : Option (List Project))
    (hkeys : PlainKeys (Session.questionsOr cat qdict)) :
    ∃ qs, (s.loadQuestions F cat qdict projs).1 = { s with questions := s.questions ++ qs } ∧
      qs.Nodup ∧ ∀ q ∈ qs, ∀ q' ∈ qs, ∀ p p' : Project, q.answerId p = q'.answerId p' →
        q = q' ∧ p.name = p'.name :=
  loadEntries_answerIds (Session.projectsOr_ne_nil cat projs) s F hkeys.entries

theorem loadQuestions_answerIds_distinct_sample :
    PlainKeys (Session.questionsOr Session.Sample.catalogue (some Session.Sample.qdict)) ∧
      ∃ qs, (Session.loadQuestions {} Forest.empty Session.Sample.catalogue
          (some Session.Sample.qdict) none).1 = { questions := [] ++ qs } ∧
        qs.Nodup ∧ ∀ q ∈ qs, ∀ q' ∈ qs, ∀ p p' : Project, q.answerId p = q'.answerId p' →
          q = q' ∧ p.name = p'.name :=
  ⟨by decide, loadQuestions_answerIds_distinct {} Forest.empty Session.Sample.catalogue
    (some Session.Sample.qdict) none (by decide)⟩

example : (Session.loadQuestions {} Forest.empty Session.Sample.catalogue
    (some [("Project Direction", [("Metrics", ["Why?"])]),
      ("Project  Direction", [("Metrics", ["How?"])])]) none).1.questions.map
      (fun q => (q.content, q.answerId Core.Sample.jobScheduler)) =
    [("Why?", "Project_Direction_____Metrics_____0/JobSchedulerService"),
      ("How?", "Project_Direction_____Metrics_____0/JobSchedulerService")] := by
  decide

namespace Sample

def loaded : List Question :=
  (Session.loadQuestions {} Forest.empty Session.Sample.catalogue (some Session.Sample.qdict)
    none).1.questions

def calls : List Call := [⟨0, Core.Sample.jobScheduler⟩, ⟨1, Core.Sample.jobScheduler⟩]

end Sample

theorem Config.call_of_lt {qs : List Question} {calls : List Call} {i : Nat}
    (hi : i < calls.length) (ho : calls[i].obj < qs.length) :
    (Config.mk qs calls).obj i = calls[i].obj ∧
      (Config.mk qs calls).question i = qs[calls[i].obj] ∧
      (Config.mk qs calls).project i = calls[i].project := by
  simp only [Config.question, Config.obj, Config.project, List.getD_eq_getElem _ _ hi, true_and,
    and_true]
  exact List.getD_eq_getElem _ _ ho

theorem loadQuestions_calls_inv (s : Session) (F : Forest) (cat : Catalogue)
    (qdict : Option QDict) (projs : Option (List Project))
    (hkeys : PlainKeys (Session.questionsOr cat qdict)) (qs : List Question)
    (hqs : (s.loadQuestions F cat qdict projs).1.questions = s.questions ++ qs)
    (calls : List Call) (hcalls : ∀ c ∈ calls, c.obj < qs.length) (st : Sys)
    (hst : (Config.mk qs calls).Reachable st) : (Config.mk qs calls).Inv st := by
  obtain ⟨qs', hs, hnodup, hid⟩ :=
    loadEntries_answerIds (Session.projectsOr_ne_nil cat projs) s F hkeys.entries
  obtain rfl : qs = qs' := List.append_cancel_left (hqs.symm.trans (congrArg Session.questions hs))
  refine hst.inv fun i hi k hk h => ?_
  obtain ⟨hoi, hqi, -⟩ := Config.call_of_lt hi (hcalls _ (List.getElem_mem hi))
  obtain ⟨hok, hqk, -⟩ := Config.call_of_lt hk (hcalls _ (List.getElem_mem hk))
  have heq := (hid _ (hqi ▸ List.getElem_mem _) _ (hqk ▸ List.getElem_mem _) _ _ h).1
  rw [hqi, hqk] at heq
  rw [hoi, hok]
  exact hnodup.getElem_inj_iff.1 heq

theorem loadQuestions_calls_inv_sample :
    PlainKeys (Session.questionsOr Session.Sample.catalogue (some Session.Sample.qdict)) ∧
      (∀ c ∈ Sample.calls, c.obj < Sample.loaded.length) ∧
      (Config.mk Sample.loaded Sample.calls).Reachable
        (((Config.mk Sample.loaded Sample.calls).run Sys.init
          [.call 0, .call 0, .call 0, .call 1, .call 1]).getD Sys.init) ∧
      (Config.mk Sample.loaded Sample.calls).Inv
        (((Config.mk Sample.loaded Sample.calls).run Sys.init
          [.call 0, .call 0, .call 0, .call 1, .call 1]).getD Sys.init) :=
  have hrun := Config.reachable_run_getD (by decide)
  ⟨by decide, by decide, hrun, loadQuestions_calls_inv {} Forest.empty Session.Sample.catalogue
    (some Session.Sample.qdict) none (by decide) Sample.loaded rfl Sample.calls (by decide) _ hrun⟩

theorem loadQuestions_answerable (s : Session) (F : Forest) (cat : Catalogue)
    (qdict : Option QDict) (projs : Option (List Project)) (qs : List Question)
    (hqs : (s.loadQuestions F cat qdict projs).1.questions = s.questions ++ qs) (calls : List Call)
    (hcalls : ∀ c ∈ calls, c.obj < qs.length ∧ c.project ∈ Session.projectsOr cat projs)
    (st : Sys) (hst : (Config.mk qs calls).Reachable st) :
    (∀ q ∈ qs, q.projects = some (Session.projectsOr cat projs)) ∧
      ∀ i, st.caller i ≠ .raised ∧
        (st.caller i = .returned → ∃ j, st.task j ≠ none ∧
          (Config.mk qs calls).answerId j = (Config.mk qs calls).answerId i) := by
  obtain ⟨-, -, qs', hs, -, hq⟩ := Session.loadEntries_spec _ (Session.projectsOr_ne_nil cat projs)
    s F (Session.entries (Session.questionsOr cat qdict))
  obtain rfl : qs = qs' := List.append_cancel_left (hqs.symm.trans (congrArg Session.questions hs))
  have hserved := hst.servedInv
  refine ⟨fun q hq' => (hq q hq').projects, fun i =>
    ⟨fun hr => ?_, fun hr => hserved.served i (.inr hr)⟩⟩
  have hi : i < calls.length := hst.liveInv.bounded i (.inl (by rw [hr]; decide))
  obtain ⟨ho, hp⟩ := hcalls _ (List.getElem_mem hi)
  obtain ⟨e, he⟩ := hserved.raised i hr
  obtain ⟨m, hm⟩ := (hq _ (List.getElem_mem ho)).leaf _ hp
  obtain ⟨-, hqi, hpi⟩ := Config.call_of_lt hi ho
  rw [hqi, hpi, hm] at he
  cases he

namespace Sample

def allProjects : List Call :=
  [⟨0, Core.Sample.jobScheduler⟩, ⟨0, Core.Sample.memoryAutoscaler⟩, ⟨1, Core.Sample.jobScheduler⟩,
    ⟨1, Core.Sample.memoryAutoscaler⟩]

def answering : Sys :=
  ((Config.mk loaded allProjects).run Sys.init
    [.call 0, .call 0, .call 0, .call 0, .task 0, .task 0, .task 0, .task 0, .task 0, .task 0,
      .call 2]).getD Sys.init

end Sample

theorem loadQuestions_answerable_sample :
    (Session.loadQuestions {} Forest.empty Session.Sample.catalogue (some Session.Sample.qdict)
        none).1.questions = ({} : Session).questions ++ Sample.loaded ∧
      (∀ c ∈ Sample.allProjects, c.obj < Sample.loaded.length ∧
        c.project ∈ Session.projectsOr Session.Sample.catalogue none) ∧
      (Config.mk Sample.loaded Sample.allProjects).Reachable Sample.answering ∧
      (∀ q ∈ Sample.loaded, q.projects = some (Session.projectsOr Session.Sample.catalogue none)) ∧
      ∀ i, Sample.answering.caller i ≠ .raised ∧
        (Sample.answering.caller i = .returned → ∃ j, Sample.answering.task j ≠ none ∧
          (Config.mk Sample.loaded Sample.allProjects).answerId j =
            (Config.mk Sample.loaded Sample.allProjects).answerId i) :=
  have hcalls : ∀ c ∈ Sample.allProjects, c.obj < Sample.loaded.length ∧
      c.project ∈ Session.projectsOr Session.Sample.catalogue none := by decide
  have hst := Config.reachable_run_getD (by decide)
  ⟨rfl, hcalls, hst, loadQuestions_answerable {} Forest.empty Session.Sample.catalogue
    (some Session.Sample.qdict) none Sample.loaded rfl Sample.allProjects hcalls _ hst⟩

end AnswerChain.Bot
