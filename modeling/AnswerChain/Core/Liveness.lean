import Mathlib.Algebra.Order.BigOperators.Group.Finset
import AnswerChain.Core.Orchestrator

namespace AnswerChain.Core

open AnswerChain.Python

namespace Config

variable (cfg : Config)

/-- What the liveness results rest on: every taken lock has a holder, and only the calls of the
list, and the threads they start, ever move. -/
structure LiveInv (s : Sys) : Prop where
  held : ∀ o, s.held o = true → ∃ x, s.holds x = true ∧ cfg.obj x.index = o
  bounded : ∀ i, (s.caller i ≠ .start ∨ s.task i ≠ none) → i < cfg.calls.length

variable {cfg} {s s' : Sys}

theorem LiveInv.held_of (h : cfg.LiveInv s) (x0 : Holder)
    (hheld : ∀ o, o ≠ cfg.obj x0.index → s'.held o = s.held o)
    (hx0 : s'.held (cfg.obj x0.index) = true →
      ∃ y, s'.holds y = true ∧ cfg.obj y.index = cfg.obj x0.index)
    (hkeep : ∀ x, x ≠ x0 → s.holds x = true → s'.holds x = true) :
    ∀ o, s'.held o = true → ∃ x, s'.holds x = true ∧ cfg.obj x.index = o := by
  intro o ho
  by_cases hox : o = cfg.obj x0.index
  · subst hox
    exact hx0 ho
  · obtain ⟨x, hx, rfl⟩ := h.held o (hheld o hox ▸ ho)
    exact ⟨x, hkeep x (fun e => hox (e ▸ rfl)) hx, rfl⟩

theorem LiveInv.held_of_free (h : cfg.LiveInv s) (x0 : Holder) (hheld : s'.held = s.held)
    (hx0 : s.holds x0 = false) (hkeep : ∀ x, x ≠ x0 → s.holds x = true → s'.holds x = true) :
    ∀ o, s'.held o = true → ∃ x, s'.holds x = true ∧ cfg.obj x.index = o :=
  h.held_of x0 (fun _ _ => by rw [hheld]) (fun ho => by
    obtain ⟨y, hy, hyo⟩ := h.held _ (hheld ▸ ho)
    exact ⟨y, hkeep y (fun e => by rw [e, hx0] at hy; cases hy) hy, hyo⟩) hkeep

theorem LiveInv.bounded_of (h : cfg.LiveInv s) {k : Nat} (hk : k < cfg.calls.length)
    (hc : ∀ i, i ≠ k → s'.caller i = s.caller i) (ht : ∀ i, i ≠ k → s'.task i = s.task i) :
    ∀ i, (s'.caller i ≠ .start ∨ s'.task i ≠ none) → i < cfg.calls.length := by
  intro i hi
  by_cases hik : i = k
  · exact hik ▸ hk
  · exact h.bounded i (by rwa [hc i hik, ht i hik] at hi)

theorem LiveInv.stepCall (h : cfg.LiveInv s) {i : Nat} (hs : cfg.stepCall s i = some s') :
    cfg.LiveInv s' := by
  have keep : ∀ {th hd pc} x, x ≠ .caller i → s.holds x = true →
      (Sys.mk th hd (Function.update s.caller i pc) s.task).holds x = true := fun x hx hxs => by
    rwa [holds_mk_caller, if_neg hx]
  have holds_i : ∀ {th hd} {pc : CallerPc}, pc.holds = true →
      ∃ y, (Sys.mk th hd (Function.update s.caller i pc) s.task).holds y = true ∧
        cfg.obj y.index = cfg.obj (Holder.caller i).index :=
    fun hpc => ⟨.caller i, by rw [holds_mk_caller, if_pos rfl]; exact hpc, rfl⟩
  have released : ∀ o, o ≠ cfg.obj (Holder.caller i).index →
      Function.update s.held (cfg.obj i) false o = s.held o :=
    fun o ho => Function.update_noteq ho _ _
  obtain ⟨hi, ⟨hc, -, rfl⟩ | ⟨hc, -, -, rfl⟩ | ⟨hc, -, rfl⟩ | ⟨hc, -, rfl⟩ | ⟨hc, rfl⟩ |
    ⟨hc, rfl⟩⟩ := stepCall_cases hs
  all_goals refine ⟨?_, h.bounded_of hi (fun k hk => Function.update_noteq hk _ _)
    (fun k hk => by first | rfl | exact Function.update_noteq hk _ _)⟩
  · exact h.held_of_free (.caller i) rfl (by simp [Sys.holds, hc, CallerPc.holds]) keep
  · exact h.held_of (.caller i) (fun o ho => Function.update_noteq ho _ _) (fun _ => holds_i rfl)
      keep
  · exact h.held_of (.caller i) released (fun ho => by simp [Holder.index] at ho) keep
  · exact h.held_of (.caller i) (fun _ _ => rfl) (fun _ => holds_i rfl) keep
  · refine h.held_of (.task i) (fun _ _ => rfl) (fun _ => ⟨.caller i, ?_, rfl⟩) fun x hx hxs => ?_
    · rw [holds_mk_task, if_neg (by simp), holds_mk_caller, if_pos rfl]
      rfl
    · rw [holds_mk_task, if_neg hx, holds_mk_caller]
      split_ifs
      · rfl
      · exact hxs
  · exact h.held_of (.caller i) released (fun ho => by simp [Holder.index] at ho) keep

theorem LiveInv.setTask (h : cfg.LiveInv s) {j : Nat} {tp tp' : TaskPc} (hc : s.task j = some tp)
    (hd : Nat → Bool) (hheld : ∀ o, o ≠ cfg.obj j → hd o = s.held o)
    (hx0 : hd (cfg.obj j) = true → tp'.holds = true ∨ s.held (cfg.obj j) = true ∧ tp.holds = false)
    (th : List (String × Nat)) :
    cfg.LiveInv (Sys.mk th hd s.caller (Function.update s.task j (some tp'))) := by
  have hj := h.bounded j (.inr (by simp [hc]))
  have keep : ∀ x, x ≠ .task j → (Sys.mk th hd s.caller
      (Function.update s.task j (some tp'))).holds x = s.holds x := fun x hx => by
    rw [holds_mk_task, if_neg hx]
    rfl
  refine ⟨h.held_of (.task j) hheld (fun ho => ?_) fun x hx hxs => by rwa [keep x hx],
    h.bounded_of hj (fun _ _ => rfl) fun k hk => Function.update_noteq hk _ _⟩
  rcases hx0 ho with hh | ⟨hh, hfree⟩
  · exact ⟨.task j, by rw [holds_mk_task, if_pos rfl]; exact hh, rfl⟩
  · obtain ⟨y, hy, hyo⟩ := h.held _ hh
    have hyj : y ≠ .task j := fun e => by rw [e, holds_task_of hc, hfree] at hy; cases hy
    exact ⟨y, by rwa [keep y hyj], hyo⟩

theorem LiveInv.stepTask (h : cfg.LiveInv s) {j : Nat} (hs : cfg.stepTask s j = some s') :
    cfg.LiveInv s' := by
  rcases stepTask_cases hs with ⟨hc, rfl⟩ | ⟨hc, -, rfl⟩ | ⟨hc, -, rfl⟩ | ⟨hc, -, rfl⟩ |
    ⟨hc, -, rfl⟩ | ⟨hc, -, rfl⟩ | ⟨hc, rfl⟩ | ⟨hc, rfl⟩
  · exact h.setTask hc _ (fun _ _ => rfl) (fun ho => .inr ⟨ho, rfl⟩) _
  · exact h.setTask hc _ (fun o ho => Function.update_noteq ho _ _) (fun _ => .inl (by rfl)) _
  · exact h.setTask hc _ (fun _ _ => rfl) (fun _ => .inl (by rfl)) _
  · exact h.setTask hc _ (fun _ _ => rfl) (fun _ => .inl (by rfl)) _
  · exact h.setTask hc _ (fun _ _ => rfl) (fun _ => .inl (by rfl)) _
  · exact h.setTask hc _ (fun o ho => Function.update_noteq ho _ _) (fun ho => by simp at ho) _
  · exact h.setTask hc _ (fun o ho => Function.update_noteq ho _ _) (fun ho => by simp at ho) _
  · exact h.setTask hc _ (fun _ _ => rfl) (fun ho => .inr ⟨ho, rfl⟩) _

theorem LiveInv.crash (h : cfg.LiveInv s) {j : Nat} (hs : s.crash j = some s') :
    cfg.LiveInv s' := by
  rcases crash_cases hs with ⟨hc, rfl⟩ | ⟨hc, rfl⟩ <;>
    exact h.setTask hc _ (fun _ _ => rfl) (fun ho => .inr ⟨ho, rfl⟩) _

theorem LiveInv.next (h : cfg.LiveInv s) {a : Act} (hs : cfg.next s a = some s') :
    cfg.LiveInv s' := by
  cases a with
  | call i => exact h.stepCall hs
  | task j => exact h.stepTask hs
  | crash j => exact h.crash hs

theorem Reachable.liveInv (hs : cfg.Reachable s) : cfg.LiveInv s := by
  induction hs with
  | init =>
    exact ⟨fun o ho => by simp [Sys.init] at ho, fun i hi => by simp [Sys.init] at hi⟩
  | step a _ hn ih => exact ih.next hn

theorem LiveInv.holder_can_step (h : cfg.LiveInv s) {x : Holder} (hx : s.holds x = true) :
    ∃ a, (cfg.next s a).isSome = true := by
  cases x with
  | caller i =>
    have hi := h.bounded i (.inl fun hc => by simp [Sys.holds, hc, CallerPc.holds] at hx)
    refine ⟨.call i, ?_⟩
    simp only [Config.next, Config.stepCall, if_pos hi]
    cases hc : s.caller i with
    | locked => dsimp only; split <;> rfl
    | absent | registered => rfl
    | start | returned | raised => simp [Sys.holds, hc, CallerPc.holds] at hx
  | task j =>
    refine ⟨.task j, ?_⟩
    simp only [Config.next, Config.stepTask]
    cases hc : s.task j with
    | none => simp [Sys.holds, hc] at hx
    | some tp =>
      cases tp <;> simp [Sys.holds, hc, TaskPc.holds] at hx
      case finPresent => dsimp only; split <;> rfl
      all_goals rfl

theorem LiveInv.can_step (h : cfg.LiveInv s)
    (hpend : (∃ i < cfg.calls.length, s.caller i ≠ .returned ∧ s.caller i ≠ .raised) ∨
      ∃ j, s.live j = true) :
    ∃ a, (cfg.next s a).isSome = true := by
  have waiting : ∀ o, s.held o = true → ∃ a, (cfg.next s a).isSome = true := fun o ho => by
    obtain ⟨x, hx, -⟩ := h.held o ho
    exact h.holder_can_step hx
  rcases hpend with ⟨i, hi, hr, hr'⟩ | ⟨j, hj⟩
  · cases hc : s.caller i with
    | start =>
      cases hl : (cfg.question i).leaf (cfg.project i).name with
      | error e => exact ⟨.call i, by simp [Config.next, Config.stepCall, hi, hc, hl]⟩
      | ok n =>
        cases hh : s.held (cfg.obj i)
        · exact ⟨.call i, by simp [Config.next, Config.stepCall, hi, hc, hl, hh]⟩
        · exact waiting _ hh
    | locked | absent | registered =>
      exact h.holder_can_step (x := .caller i) (by simp [Sys.holds, hc, CallerPc.holds])
    | returned => exact absurd hc hr
    | raised => exact absurd hc hr'
  · cases hc : s.task j with
    | none => simp [Sys.live, hc] at hj
    | some tp =>
      cases tp with
      | finishing =>
        cases hh : s.held (cfg.obj j)
        · exact ⟨.task j, by simp [Config.next, Config.stepTask, hc, hh]⟩
        · exact waiting _ hh
      | running | writing => exact ⟨.task j, by simp [Config.next, Config.stepTask, hc]⟩
      | finLocked | finPresent | finUnlocking =>
        exact h.holder_can_step (x := .task j) (by simp [Sys.holds, hc, TaskPc.holds])
      | done | crashed | failed => simp [Sys.live, hc, TaskPc.live] at hj

theorem ne_none_update {f : Nat → Option TaskPc} {k j : Nat} {tp : TaskPc} (h : f j ≠ none) :
    Function.update f k (some tp) j ≠ none := by
  rw [Function.update_apply]
  split <;> simp_all

theorem next_task_ne_none {a : Act} (h : cfg.next s a = some s') {j : Nat}
    (hj : s.task j ≠ none) : s'.task j ≠ none := by
  cases a with
  | call i =>
    obtain ⟨-, ⟨-, -, rfl⟩ | ⟨-, -, -, rfl⟩ | ⟨-, -, rfl⟩ | ⟨-, -, rfl⟩ | ⟨-, rfl⟩ | ⟨-, rfl⟩⟩ :=
      stepCall_cases h <;> first | exact hj | exact ne_none_update hj
  | task k =>
    obtain ⟨-, ⟨_, ht⟩, -⟩ := stepTask_frame h
    exact ht ▸ ne_none_update hj
  | crash k => rcases crash_cases h with ⟨-, rfl⟩ | ⟨-, rfl⟩ <;> exact ne_none_update hj

variable (cfg) in
/-- What a call can count on, whatever the objects: it raises only for a missing leaf, and once
past its check it has found or started a thread of its answer id, which may since have ended. -/
structure ServedInv (s : Sys) : Prop where
  threads : ∀ id j, s.threads.lookup id = some j → s.task j ≠ none ∧ cfg.answerId j = id
  raised : ∀ i, s.caller i = .raised → ∃ e, (cfg.question i).leaf (cfg.project i).name = .error e
  served : ∀ i, s.caller i = .registered ∨ s.caller i = .returned →
    ∃ j, s.task j ≠ none ∧ cfg.answerId j = cfg.answerId i

theorem ServedInv.of_step (h : cfg.ServedInv s) {i : Nat}
    (hnext : ∀ j, s.task j ≠ none → s'.task j ≠ none)
    (hth : ∀ id j, s'.threads.lookup id = some j →
      s.threads.lookup id = some j ∨ (j = i ∧ s'.task i ≠ none ∧ cfg.answerId i = id))
    (hcall : ∀ k, k ≠ i → s'.caller k = s.caller k)
    (hi : s'.caller i = s.caller i ∨
      (s'.caller i = .raised → ∃ e, (cfg.question i).leaf (cfg.project i).name = .error e) ∧
      (s'.caller i = .registered ∨ s'.caller i = .returned →
        ∃ j, s'.task j ≠ none ∧ cfg.answerId j = cfg.answerId i)) : cfg.ServedInv s' := by
  refine ⟨fun id j hl => ?_, fun k hk => ?_, fun k hk => ?_⟩
  · rcases hth id j hl with hl | ⟨rfl, hj, he⟩
    · exact (h.threads id j hl).imp_left (hnext j)
    · exact ⟨hj, he⟩
  · by_cases hki : k = i
    · subst hki
      rcases hi with he | ⟨hr, -⟩
      · exact h.raised k (he ▸ hk)
      · exact hr hk
    · exact h.raised k (hcall k hki ▸ hk)
  · have keep : s'.caller k = s.caller k →
        ∃ j, s'.task j ≠ none ∧ cfg.answerId j = cfg.answerId k := fun he => by
      obtain ⟨j, hj, he'⟩ := h.served k (he ▸ hk)
      exact ⟨j, hnext j hj, he'⟩
    by_cases hki : k = i
    · subst hki
      rcases hi with he | ⟨-, hs⟩
      · exact keep he
      · exact hs hk
    · exact keep (hcall k hki)

theorem ServedInv.next (h : cfg.ServedInv s) {a : Act} (hs : cfg.next s a = some s') :
    cfg.ServedInv s' := by
  have hnext := fun j => next_task_ne_none hs (j := j)
  cases a with
  | call i =>
    have hcall : ∀ {pc : CallerPc} k, k ≠ i → Function.update s.caller i pc k = s.caller k :=
      fun k hk => Function.update_noteq hk _ _
    obtain ⟨-, ⟨hc, ⟨e, hl⟩, rfl⟩ | ⟨hc, -, -, rfl⟩ | ⟨hc, hd, rfl⟩ | ⟨hc, -, rfl⟩ | ⟨hc, rfl⟩ |
      ⟨hc, rfl⟩⟩ := stepCall_cases hs
    · exact h.of_step hnext (fun _ _ hl => .inl hl) hcall (.inr ⟨fun _ => ⟨e, hl⟩, by simp⟩)
    · exact h.of_step hnext (fun _ _ hl => .inl hl) hcall (.inr ⟨by simp, by simp⟩)
    · refine h.of_step hnext (fun _ _ hl => .inl hl) hcall (.inr ⟨by simp, fun _ => ?_⟩)
      obtain ⟨j, hj⟩ := Option.isSome_iff_exists.1 (by rwa [dictHas_eq_isSome] at hd)
      exact ⟨j, h.threads _ j hj⟩
    · exact h.of_step hnext (fun _ _ hl => .inl hl) hcall (.inr ⟨by simp, by simp⟩)
    · refine h.of_step hnext (fun id j hl => ?_) hcall
        (.inr ⟨by simp, fun _ => ⟨i, by simp, rfl⟩⟩)
      rw [lookup_dictSet] at hl
      split at hl
      · cases hl
        exact .inr ⟨rfl, by simp, by simp_all⟩
      · exact .inl hl
    · exact h.of_step hnext (fun _ _ hl => .inl hl) hcall
        (.inr ⟨by simp, fun _ => (h.served i (.inl hc)).imp fun _ hj => ⟨hj.1, hj.2⟩⟩)
  | task j =>
    obtain ⟨hc, -, hth⟩ := stepTask_frame hs
    refine h.of_step (i := j) hnext (fun id k hl => .inl ?_) (fun k _ => by rw [hc])
      (.inl (by rw [hc]))
    rcases hth with hth | hth <;> rw [hth] at hl
    · exact hl
    · rw [lookup_dictDel] at hl
      split at hl
      · cases hl
      · exact hl
  | crash j =>
    rcases crash_cases hs with ⟨-, rfl⟩ | ⟨-, rfl⟩ <;>
      exact h.of_step (i := j) hnext (fun _ _ hl => .inl hl) (fun _ _ => rfl) (.inl rfl)

theorem Reachable.servedInv (hs : cfg.Reachable s) : cfg.ServedInv s := by
  induction hs with
  | init => exact ⟨fun id j h => by simp [Sys.init] at h, fun i h => by simp [Sys.init] at h,
      fun i h => by simp [Sys.init] at h⟩
  | step a _ hn ih => exact ih.next hn

theorem Reachable.final_of_stuck (hs : cfg.Reachable s) (hstuck : ∀ a, cfg.next s a = none) :
    (∀ i < cfg.calls.length, s.caller i = .returned ∨ s.caller i = .raised) ∧
      ∀ j, s.live j = false := by
  have hnone : ¬∃ a, (cfg.next s a).isSome = true := fun ⟨a, ha⟩ => by simp [hstuck a] at ha
  refine ⟨fun i hi => ?_, fun j => ?_⟩
  · by_contra hc
    push_neg at hc
    exact hnone (hs.liveInv.can_step (.inl ⟨i, hi, hc⟩))
  · by_contra hj
    exact hnone (hs.liveInv.can_step (.inr ⟨j, by simpa using hj⟩))

end Config

namespace Sample

def oneAfterAnother : List Act :=
  List.replicate 4 (.call 0) ++ List.replicate 6 (.task 0) ++ List.replicate 4 (.call 1) ++
    List.replicate 6 (.task 1)

def bothDone : Sys := (twice.run Sys.init oneAfterAnother).getD Sys.init

end Sample

theorem final_of_stuck_bothDone :
    Sample.twice.Reachable Sample.bothDone ∧ (∀ a, Sample.twice.next Sample.bothDone a = none) ∧
      (∀ i < Sample.twice.calls.length, Sample.bothDone.caller i = .returned ∨
        Sample.bothDone.caller i = .raised) ∧ ∀ j, Sample.bothDone.live j = false :=
  have hs : Sample.twice.Reachable Sample.bothDone := Config.reachable_run_getD (by decide)
  have hstuck : ∀ a, Sample.twice.next Sample.bothDone a = none := fun a => by
    rcases a with (_ | _ | i) | (_ | _ | j) | (_ | _ | j) <;> rfl
  ⟨hs, hstuck, hs.final_of_stuck hstuck⟩

def CallerPc.rank : CallerPc → Nat
  | .start => 10
  | .locked => 9
  | .absent => 8
  | .registered => 1
  | .returned | .raised => 0

def TaskPc.rank : TaskPc → Nat
  | .running => 6
  | .finishing => 5
  | .finLocked => 4
  | .finPresent => 3
  | .finUnlocking => 2
  | .writing => 1
  | .done | .crashed | .failed => 0

def Sys.rank (s : Sys) (i : Nat) : Nat := (s.caller i).rank + ((s.task i).map TaskPc.rank).getD 0

namespace Config

variable {cfg : Config} {s s' : Sys}

def measure (cfg : Config) (s : Sys) : Nat := ∑ i in Finset.range cfg.calls.length, s.rank i

theorem measure_lt_of {k : Nat} (hk : k < cfg.calls.length) (hlt : s'.rank k < s.rank k)
    (heq : ∀ i, i ≠ k → s'.rank i = s.rank i) : cfg.measure s' < cfg.measure s :=
  Finset.sum_lt_sum (fun i _ => by by_cases hi : i = k <;> simp [hi, hlt.le, heq])
    ⟨k, Finset.mem_range.2 hk, hlt⟩

theorem LiveInv.measure_next_lt (h : cfg.LiveInv s) {a : Act} (hs : cfg.next s a = some s') :
    cfg.measure s' < cfg.measure s := by
  cases a with
  | call i =>
    obtain ⟨hi, ⟨hc, -, rfl⟩ | ⟨hc, -, -, rfl⟩ | ⟨hc, -, rfl⟩ | ⟨hc, -, rfl⟩ | ⟨hc, rfl⟩ |
      ⟨hc, rfl⟩⟩ := stepCall_cases hs <;>
      refine measure_lt_of hi ?_ fun k hk => (by simp [Sys.rank, Function.update_noteq hk]) <;>
      simp [Sys.rank, hc, CallerPc.rank, TaskPc.rank]
    omega
  | task j =>
    have hj := h.bounded j
    rcases stepTask_cases hs with ⟨hc, rfl⟩ | ⟨hc, -, rfl⟩ | ⟨hc, -, rfl⟩ | ⟨hc, -, rfl⟩ |
      ⟨hc, -, rfl⟩ | ⟨hc, -, rfl⟩ | ⟨hc, rfl⟩ | ⟨hc, rfl⟩ <;>
      exact measure_lt_of (hj (.inr (by simp [hc]))) (by simp [Sys.rank, hc, TaskPc.rank])
        fun k hk => by simp [Sys.rank, Function.update_noteq hk]
  | crash j =>
    have hj := h.bounded j
    rcases crash_cases hs with ⟨hc, rfl⟩ | ⟨hc, rfl⟩ <;>
      exact measure_lt_of (hj (.inr (by simp [hc]))) (by simp [Sys.rank, hc, TaskPc.rank])
        fun k hk => by simp [Sys.rank, Function.update_noteq hk]

theorem LiveInv.run_length_le (h : cfg.LiveInv s) {l : List Act} (hr : cfg.run s l = some s') :
    l.length + cfg.measure s' ≤ cfg.measure s := by
  induction l generalizing s with
  | nil =>
    cases hr
    simp
  | cons a rest ih =>
    obtain ⟨s₁, h₁, hr₁⟩ := Option.bind_eq_some.1 hr
    have hlt := h.measure_next_lt h₁
    have hle := ih (h.next h₁) hr₁
    simp only [List.length_cons]
    omega

theorem measure_init (cfg : Config) : cfg.measure Sys.init = 10 * cfg.calls.length := by
  simp [measure, Sys.rank, Sys.init, CallerPc.rank, mul_comm]

theorem run_terminates {l : List Act} (hr : cfg.run Sys.init l = some s) :
    l.length ≤ 10 * cfg.calls.length := by
  have hle := (Reachable.init : cfg.Reachable Sys.init).liveInv.run_length_le hr
  rw [measure_init] at hle
  omega

end Config

example : (Sample.twice.run Sys.init Sample.oneAfterAnother).isSome = true ∧
    Sample.oneAfterAnother.length = 10 * Sample.twice.calls.length := by
  decide

end AnswerChain.Core
