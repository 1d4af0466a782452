import AnswerChain.Core.Question

namespace AnswerChain.Bot

open AnswerChain.Python AnswerChain.Core

def combinedRoundLines : List String := [
    "",
    "My next interview is with Meta on the Project Retrospective and Behavioral Round.   It will be in 8 areas:",
    "",
    "• Project direction:",
    "    -   How do you set and drive success metrics?",
    "    -   How do you influence stakeholders to implement the most impactful solution?",
    "    -   Discuss how you align your projects to the objectives of the organization at large.",
    "    -   How do you establish milestones and drive strategic planning for your orgnaization goals (talk about",
    "        participating in strategic planning)?",
    "    -   Talk about bringing about stakeholder alignment on projects you have initiated or driven.",
    "    -   When you initiate projects how do you investigate the particular problem to gauge alignment with org goals?",
    "        Talk about customer data, operational reports, and strategic business drivers.",
    "    -   How would you quantify success metrics and explain specifically how you would chose the metrics/baselines you nominated?",
    "    -   How you would gain buy-in from critical stakeholders? How you would align conflicting priorities among stakeholders to drive consensus.",
    "    -   What techniques/frameworks/process do you have for communicating the strategic importance of projects to senior leadership or executives?",
    "",
    "• Project execution: How do you identify and address gaps in execution?  What tools and/or systems have you utilized or built to ensure quality work across complex problems?  How do you track execution health and statuses?  What proceses have you put in place to scale processes?  How do you empower your teams, EMs and TLs to execute and collaborate with partners?",
    "",
    "• Stakeholder influence and engagement: When have you had to influence and negotiate with stakeholders and peers? How do you build strong partnerships across the organization? How do you nurture relationships, foster engagement and empower your stakeholders?  How do you handle disagreements and address and assess key issues with your partners?",
    "",
    "• Partners: How do you partner with cross-functional partners and stakeholders? What are some successful collaborations that you’ve had? How do you communicate your vision to your partners (talk about your framework and manifesto).  What is your plannning process through out the year?  How do you align variou sorgs like business, compliance etc?  How do you build aliances?  How do you empower your teams and managers to work with your parters?  How do you get everybody on the same page?  Tell me how you’d design a client-server API to build a rich document editor",
    "",
    "• Resolves Conflict: What kind of disagreements have you had with colleagues and/or team members? How have you resolved them? Can you empathize with people whose points of view differ radically from yours?  When resolving conflicts what kind of frameworks and processes do you setup for your teams (and for yourself) for the future?   How do you fix existing processes?",
    "",
    "• Grows Continuously: Discuss a project that you led and were really passionate about that failed. Why did it fail and what did you learn? How did take constructive criticism as an opportunity to improve?  What best practices did you put in place as a result of this or did you improve as a result?  Talk about Receiving feedback, retrospectives, scaling self awareness for you and your teams, SWOT.",
    "",
    "• Embraces Ambiguity: How do you operate in an ambiguous and quickly changing environment? Can you make quality decisions and sustain productivity when missing information? How did you react when you had to pivot your team away from a project due to a shift in priority?",
    "",
    "• Communicates Effectively: How well do you communicate with teams and cross-functional partners?  How do you coach your team to effectively communicate with their stakeholders?   How do you study the audience?  Identify gaps in communication styles, address the gaps, help teams resonate with your message and persuade all audience types?   How do you measure this?   How do you deliver complex pieces of information to teams, partners, leadership etc?",
    ""]

def combinedRound : String := join "\n" combinedRoundLines

def GPSF : String := join "\n" [
    "",
    "* Quick summary containing 3 key philosophies you will be addressing that are strongly in line with Meta and Google\x27s L7 senior manager rubriks.",
    "* Address key frameworks you will be talking about it.  Make sure to use these frameworks explicitly in your writeup.",
    "* Situation (3 Bullet points)?  What was the context and why it wasnt identified until now?   How long has it been  happening and had anything changed (eg new technology, new environment, new processes, new leadership etc). How you spent time understanding the problem and finally what convinced you that it was a problem?  As part of this investigation whose view points did you consider (eg 1/1s, team, leadereship, peers, PMs etc)?",
    "* How you communicated the learnings (3 bullet points): If applicable how did you share the learnings and patterns and how did you adapt communication to suit the audience?",
    "* Identifying Options (5 bullet points): Given the understanding how did you identify (through all parties - including",
    "your teams and partners) and arrive at options to fix the team problem?  Who did you leverage in doing so (demonstrate your team and cross functional leadership here).",
    "* Obstacles and Ensuring Alignment from various parties on the solutions (5 bullet points): What obstacles did you face here on the option and what were the oppositions (eg tradeoffs, politics, etc)?  How did you overcome these?  What frameworks/processes did you apply",
    "  and establish?",
    "* Executing on the solution:",
    "  - How did you plan out and breakdown the solution? (3 bullet points)",
    "  - How did you fix issues with the frameworks in place?  What new frameworks did you have to bring in if any?  What",
    "    would the change involve?",
    "  - Tracking the Change (5-10 bullet points): How did you track, communicate, monitor, manage the change - talk about within teams, with managers/TLs, cross functional, leadership and so on if applicable.",
    "  - Examples of hurdles and challenges during the change management and how you solved them as a senior engineering leader.",
    "* Results and Impact (3 bullet points each): Detail the impact qualitatively and quantitatively?",
    "* Learnings (5 bulletpoints): What did you learn, and what would you do differently. What processes did you fix during all this and what scalable improvements/processes did you put in place as a result.",
    "* Through out each of the above points ensure that you have tie back to the philosophies and frameworks you presented in  the Quick Summary at the start.",
    ""]

/-- `instructions_for_question(question, project)`. Its last line has no `f` prefix, so the prompt
ends with the literal text `{question.content}` and never holds the question. -/
def instructionsForQuestion (question : Question) (project : Option Project) : NodeInfo :=
  let prompt := "\n" ++ combinedRound ++ "\n"
  let prompt := match project with
    | some project =>
      prompt ++ "\n" ++ "Make sure in your answers you use \x27I\x27 instead of \x27We\x27 whereever possible.  Key is to show your actions and impact.  When answering the question pick examples from the " ++
        project.name ++ " project.  Its timeline is:" ++ "\n\n" ++ project.timeline ++ "\n"
    | none => prompt
  let prompt := prompt ++ "Answer this question: `\x7bquestion.content\x7d`"
  NodeInfo.new "root" "" prompt none true

def instructionsForQuestion2 (question : Question) (project : Option Project)
    (answerFormat : String := GPSF) : NodeInfo :=
  let prompt := combinedRound
  let prompt := prompt ++ "\n\nAnswer this question: `" ++ question.content ++
    "`\n\nUse the following format when answering:"
  let prompt := prompt ++ "\n---\n" ++ answerFormat ++ "\n---"
  let prompt := prompt ++
    "\n\nEnsure that you are addressing relevant Meta values and principles and answering at an L7 engineering manager level and make sure to address Meta\x27s values and principles."
  let prompt := match project with
    | some project =>
      prompt ++ "\n\nMake sure in your answers you use \x27I\x27 instead of \x27We\x27 whereever possible.  Key is to show your actions and impact.  When answering the question pick examples from the " ++
        project.name ++ " project.  Its timeline and details are:" ++ "\n---\n" ++ project.timeline ++
        "\n---"
    | none => prompt
  NodeInfo.new "root" "OneShotAnswer" prompt

/-- `nodes_for_chained_answer(question, project)` on the forest `F`: the instruction root and four
follow-ups, each the parent of the next, and the index of the last. -/
def nodesForChainedAnswer (F : Forest) (question : Question) (project : Option Project) :
    Forest × Nat :=
  let root := F.nodes.length
  let F₀ := F.push (instructionsForQuestion question project) Forest.none_parent_lt
  let F₁ := F₀.push (NodeInfo.new "oneminute" "One minute answer"
    "Now give a 1 minute version that captures the situation, context, your specific actions/frameworks and results."
    (some root)) (Forest.some_parent_lt (by simp only [F₀, root, Forest.length_push]; omega))
  let F₂ := F₁.push (NodeInfo.new "twominute" "Two Minute Answer"
    "\n        Great now come up with a 2 minute version that provides a timeline view of all the triggers and the actions you took to assess and address the situations along with who was involved in this action (teams, TLs, EMs, partners and leaders etc).\n    "
    (some (root + 1)))
    (Forest.some_parent_lt (by simp only [F₁, F₀, root, Forest.length_push]; omega))
  let F₃ := F₂.push (NodeInfo.new "detailed" "Detailed Response"
    "\n        Great now give me a detailed five minute version that dives deep into actions you took across various aspects of the problem solving including partners, team members, leadership and customers (showed in the 2 minute version).  This should also include frameworks you had in place, what new frameworks/processes you put in place and evolved existing ones to empower teams and partners in scaling their impact.  Make sure to assess this for any qualitative aspects and then fill in the details so that there is sufficient depth to address any qualitative statements.\n    "
    (some (root + 2)) false "gpt-4.5-preview")
    (Forest.some_parent_lt (by simp only [F₂, F₁, F₀, root, Forest.length_push]; omega))
  let F₄ := F₃.push (NodeInfo.new "flowchart" "Summary Flowchart"
    "Great now can you also give me a summary flowchart diagram linking all the actions you took?"
    (some (root + 3)) false "gpt-4.5-preview")
    (Forest.some_parent_lt (by simp only [F₃, F₂, F₁, F₀, root, Forest.length_push]; omega))
  (F₄, root + 4)

def nodesForAnswerWithReview (F : Forest) (question : Question) (project : Option Project) :
    Forest × Nat :=
  let root := F.nodes.length
  let F₀ := F.push (instructionsForQuestion2 question project) Forest.none_parent_lt
  let F₁ := F₀.push (NodeInfo.new "reviewed" "Reviewed Answer"
    "Great now I want you to play the role of the reviewer and review this answer at a senior engineering manager level.  I want you to review the answer critically and address areas where there is insufficient and fix and rewrite the candidate\x27s answer by addressing all the areas of improvement."
    (some root)) (Forest.some_parent_lt (by simp only [F₀, root, Forest.length_push]; omega))
  (F₁, root + 1)

/-- The chain `nodes_for_answer_with_review` builds for `q` and `p`, as it ends at `leaf` in `F`:
the one-shot root, whose prompt holds the question and the project's timeline, then the review. No
node is an instruction node, and the titles, which name the node files, are the two constants. -/
structure ReviewChain (F : Forest) (leaf : Nat) (q : Question) (p : Project) : Prop where
  path : F.path leaf = [leaf, F.root leaf]
  content : isIn q.content (F.get (F.root leaf)).question
  timeline : isIn p.timeline (F.get (F.root leaf)).question
  instruction : ∀ n ∈ F.path leaf, (F.get n).isInstruction = false
  titles : (F.path leaf).map (fun n => (F.get n).title) = ["Reviewed Answer", "OneShotAnswer"]

namespace ReviewChain

variable {F G : Forest} {leaf : Nat} {q q' : Question} {p : Project}

theorem of_content (hp : ReviewChain F leaf q p) (h : q'.content = q.content) :
    ReviewChain F leaf q' p :=
  ⟨hp.path, h ▸ hp.content, hp.timeline, hp.instruction, hp.titles⟩

theorem extend (hp : ReviewChain F leaf q p) (h : F.nodes <+: G.nodes)
    (hl : leaf < F.nodes.length) : ReviewChain G leaf q p := by
  have hget : ∀ n ∈ F.path leaf, G.get n = F.get n := fun n hn =>
    F.get_extend h (lt_of_le_of_lt (F.le_of_mem_path hn) hl)
  have hroot : G.get (G.root leaf) = F.get (F.root leaf) := by
    rw [F.root_extend h hl]
    exact hget _ (List.getLast_mem _)
  refine ⟨?_, hroot ▸ hp.content, hroot ▸ hp.timeline, ?_, ?_⟩ <;> rw [F.path_extend h hl]
  · rw [hp.path, F.root_extend h hl]
  · exact fun n hn => hget n hn ▸ hp.instruction n hn
  · rw [List.map_congr_left fun n hn => congrArg NodeInfo.title (hget n hn)]
    exact hp.titles

end ReviewChain

section

variable (F : Forest) (q : Question) (project : Option Project)

theorem nodesForChainedAnswer_path :
    (nodesForChainedAnswer F q project).1.path (nodesForChainedAnswer F q project).2 =
      [F.nodes.length + 4, F.nodes.length + 3, F.nodes.length + 2, F.nodes.length + 1,
        F.nodes.length] := by
  have hp : ∀ i, i < 4 →
      ((nodesForChainedAnswer F q project).1.get (F.nodes.length + i + 1)).parent =
        some (F.nodes.length + i) := fun i hi =>
    match i, hi with
    | 0, _ | 1, _ | 2, _ | 3, _ => by simp [nodesForChainedAnswer, Forest.get_push, NodeInfo.new]
  have h0 : ((nodesForChainedAnswer F q project).1.get F.nodes.length).parent = none := by
    simp [nodesForChainedAnswer, Forest.get_push, instructionsForQuestion, NodeInfo.new,
      Nat.add_assoc]
  rw [show (nodesForChainedAnswer F q project).2 = F.nodes.length + 4 from rfl,
    Forest.path_of_consecutive _ h0 4 hp]
  rfl
theorem nodesForChainedAnswer_root :
    (nodesForChainedAnswer F q project).1.root (nodesForChainedAnswer F q project).2 =
      F.nodes.length :=
  Forest.root_eq_of_path _ (nodesForChainedAnswer_path F q project) rfl

theorem nodesForChainedAnswer_get_root :
    (nodesForChainedAnswer F q project).1.get F.nodes.length = instructionsForQuestion q project := by
  simp [nodesForChainedAnswer, Forest.get_push, Nat.add_assoc]

end

theorem instructionsForQuestion_question (q : Question) (p : Project) :
    (instructionsForQuestion q (some p)).question =
      join "\n" ([""] ++ combinedRoundLines ++
        ["", "Make sure in your answers you use \x27I\x27 instead of \x27We\x27 whereever possible.  Key is to show your actions and impact.  When answering the question pick examples from the " ++ p.name ++ " project.  Its timeline is:", "",
          p.timeline, "Answer this question: `\x7bquestion.content\x7d`"]) := by
  rw [join_append _ (by simp) (by simp), join_append _ (by simp) (by simp [combinedRoundLines])]
  simp only [instructionsForQuestion, combinedRound, NodeInfo.new, join_singleton,
    join_cons _ _ (List.cons_ne_nil _ _), String.append_assoc, String.empty_append,
    show "\n\n" = "\n" ++ "\n" from rfl]

theorem nodesForChainedAnswer_shape (F : Forest) (q : Question) (p : Project) :
    let chain := nodesForChainedAnswer F q (some p)
    chain.1.path chain.2 = [F.nodes.length + 4, F.nodes.length + 3, F.nodes.length + 2,
      F.nodes.length + 1, F.nodes.length] ∧
      (∀ n ∈ chain.1.path chain.2, (chain.1.get n).isInstruction = true ↔ n = F.nodes.length) ∧
      isIn p.timeline (chain.1.get F.nodes.length).question := by
  refine ⟨nodesForChainedAnswer_path F q _, ?_, ?_⟩
  · rw [nodesForChainedAnswer_path]
    simp [nodesForChainedAnswer, Forest.get_push, NodeInfo.new, instructionsForQuestion,
      Nat.add_assoc]
  · rw [nodesForChainedAnswer_get_root, instructionsForQuestion_question]
    exact isIn_join_of_mem _ (by simp)

section

variable (F : Forest) (q : Question) (project : Option Project)

theorem nodesForAnswerWithReview_path :
    (nodesForAnswerWithReview F q project).1.path (nodesForAnswerWithReview F q project).2 =
      [F.nodes.length + 1, F.nodes.length] := by
  have h0 : ((nodesForAnswerWithReview F q project).1.get F.nodes.length).parent = none := by
    simp [nodesForAnswerWithReview, Forest.get_push, instructionsForQuestion2, NodeInfo.new]
  rw [show (nodesForAnswerWithReview F q project).2 = F.nodes.length + 1 from rfl,
    Forest.path_of_consecutive _ h0 1 fun i hi => ?_]
  · rfl
  · obtain rfl : i = 0 := by omega
    simp [nodesForAnswerWithReview, Forest.get_push, NodeInfo.new]

theorem nodesForAnswerWithReview_get_root :
    (nodesForAnswerWithReview F q project).1.get
        ((nodesForAnswerWithReview F q project).1.root (nodesForAnswerWithReview F q project).2) =
      instructionsForQuestion2 q project := by
  rw [Forest.root_eq_of_path _ (nodesForAnswerWithReview_path F q project) rfl]
  simp [nodesForAnswerWithReview, Forest.get_push]

theorem prefix_nodesForAnswerWithReview :
    F.nodes <+: (nodesForAnswerWithReview F q project).1.nodes :=
  (List.prefix_append _ _).trans (List.prefix_append _ _)

@[simp] theorem length_nodesForAnswerWithReview :
    (nodesForAnswerWithReview F q project).1.nodes.length = F.nodes.length + 2 := by
  simp [nodesForAnswerWithReview]

end

theorem ReviewChain.of_nodesForAnswerWithReview (F : Forest) (q : Question) (p : Project)
    {G : Forest} (h : (nodesForAnswerWithReview F q (some p)).1.nodes <+: G.nodes) :
    ReviewChain G (nodesForAnswerWithReview F q (some p)).2 q p := by
  refine ReviewChain.extend ?_ h (by simp [nodesForAnswerWithReview])
  have hroot := Forest.root_eq_of_path _ (nodesForAnswerWithReview_path F q (some p)) rfl
  refine ⟨?_, ?_, ?_, ?_, ?_⟩
  · rw [nodesForAnswerWithReview_path, hroot]
    rfl
  · rw [nodesForAnswerWithReview_get_root]
    exact isIn_foldl_append (isIn_append_right _ (isIn_self _)) [_, _, _, _, _, _, _, _, _, _, _]
  · rw [nodesForAnswerWithReview_get_root]
    exact isIn_append_left _ (isIn_append_right _ (isIn_self _))
  all_goals
    rw [nodesForAnswerWithReview_path]
    simp [nodesForAnswerWithReview, Forest.get_push, NodeInfo.new, instructionsForQuestion2]

set_option maxRecDepth 3000 in
theorem chainedAnswer_prompt_lacks_question :
    let chain := nodesForChainedAnswer Forest.empty Sample.question (some Sample.jobScheduler)
    ¬ isIn Sample.question.content (chain.1.get (chain.1.root chain.2)).question := by
  intro chain h
  rw [nodesForChainedAnswer_root, nodesForChainedAnswer_get_root,
    instructionsForQuestion_question] at h
  obtain ⟨l, hl, h⟩ := isIn_join_of_not_mem (by decide) _ _ h
  revert l
  decide

end AnswerChain.Bot
