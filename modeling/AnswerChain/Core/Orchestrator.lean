import AnswerChain.Core.Threads

/-! The calls of `answer_for_project` and the threads they start, interleaved. Each `Question`
object has its own `lock`, while `threads` is one dict of the class. A step is one atomic piece of
the code: a lookup, a lock taken or released, a check of `threads`, a change of it, or the whole of
`callnode` or of the final writes, which only touch the files. -/

namespace AnswerChain.Core

open AnswerChain.Python

/-- Where a call of `answer_for_project` is: `locked`, `absent` (the id was not found) and
`registered` (the id was set and the thread started) hold the lock; `raised` is the raise of
`leafnodes[project.name]`. -/
inductive CallerPc
  | start
  | locked
  | absent
  | registered
  | returned
  | raised
  deriving DecidableEq, Repr

/-- Where the thread of `_answer_for_project` is: `running` is `callnode`, `finishing` waits for the
lock in `_answer_finished`, `finPresent` found the id and `finUnlocking` dropped it, `writing` writes
the files; `crashed` is a raise of `callnode`, `failed` one of `_answer_finished` (at the `del`, or
in a final write). -/
inductive TaskPc
  | running
  | finishing
  | finLocked
  | finPresent
  | finUnlocking
  | writing
  | done
  | crashed
  | failed
  deriving DecidableEq, Repr

namespace TaskPc

def registered : TaskPc → Bool
  | .running | .finishing | .finLocked | .finPresent | .crashed => true
  | _ => false

def live : TaskPc → Bool
  | .done | .crashed | .failed => false
  | _ => true

def holds : TaskPc → Bool
  | .finLocked | .finPresent | .finUnlocking => true
  | _ => false

end TaskPc

def CallerPc.holds : CallerPc → Bool
  | .locked | .absent | .registered => true
  | _ => false

structure Call where
  obj : Nat
  project : Project
  deriving DecidableEq, Repr, Inhabited

structure Config where
  objs : List Question
  calls : List Call

/-- The state of every thread. Call `i` starts thread `i`, so `task i` is `none` until it does. -/
structure Sys where
  threads : List (String × Nat)
  held : Nat → Bool
  caller : Nat → CallerPc
  task : Nat → Option TaskPc

namespace Sys

def init : Sys := ⟨[], fun _ => false, fun _ => .start, fun _ => none⟩

variable (s : Sys)

def registered (j : Nat) : Bool := ((s.task j).map TaskPc.registered).getD false

def live (j : Nat) : Bool := ((s.task j).map TaskPc.live).getD false

end Sys

namespace Config

variable (cfg : Config)

def obj (i : Nat) : Nat := (cfg.calls.getD i default).obj

def project (i : Nat) : Project := (cfg.calls.getD i default).project

def question (i : Nat) : Question := cfg.objs.getD (cfg.obj i) default

def answerId (i : Nat) : String := (cfg.question i).answerId (cfg.project i)

def folder (i : Nat) : String := (cfg.question i).folderForProject (cfg.project i)

def stepCall (s : Sys) (i : Nat) : Option Sys :=
  if i < cfg.calls.length then
    let o := cfg.obj i
    let set (pc : CallerPc) := Function.update s.caller i pc
    match s.caller i with
    | .start =>
      match (cfg.question i).leaf (cfg.project i).name with
      | .error _ => some { s with caller := set .raised }
      | .ok _ =>
        if s.held o then none
        else some { s with held := Function.update s.held o true, caller := set .locked }
    | .locked =>
      if dictHas s.threads (cfg.answerId i) then
        some { s with held := Function.update s.held o false, caller := set .returned }
      else some { s with caller := set .absent }
    | .absent =>
      some { s with threads := dictSet s.threads (cfg.answerId i) i,
                    task := Function.update s.task i (some .running), caller := set .registered }
    | .registered => some { s with held := Function.update s.held o false, caller := set .returned }
    | .returned | .raised => none
  else none

/-- One step of thread `j`. The `del` raises `KeyError` when the id has gone since the check, which
only a thread of another object can do; the `with` then releases the lock. -/
def stepTask (s : Sys) (j : Nat) : Option Sys :=
  let o := cfg.obj j
  let set (pc : TaskPc) := Function.update s.task j (some pc)
  match s.task j with
  | some .running => some { s with task := set .finishing }
  | some .finishing =>
    if s.held o then none
    else some { s with held := Function.update s.held o true, task := set .finLocked }
  | some .finLocked =>
    some { s with task := set (if dictHas s.threads (cfg.answerId j) then .finPresent
                               else .finUnlocking) }
  | some .finPresent =>
    if dictHas s.threads (cfg.answerId j) then
      some { s with threads := dictDel s.threads (cfg.answerId j), task := set .finUnlocking }
    else some { s with held := Function.update s.held o false, task := set .failed }
  | some .finUnlocking => some { s with held := Function.update s.held o false, task := set .writing }
  | some .writing => some { s with task := set .done }
  | _ => none

end Config

/-- Thread `j` raises: in `callnode`, or in a final write. -/
def Sys.crash (s : Sys) (j : Nat) : Option Sys :=
  match s.task j with
  | some .running => some { s with task := Function.update s.task j (some .crashed) }
  | some .writing => some { s with task := Function.update s.task j (some .failed) }
  | _ => none

inductive Act
  | call (i : Nat)
  | task (j : Nat)
  | crash (j : Nat)
  deriving DecidableEq, Repr

namespace Config

variable (cfg : Config)

def next (s : Sys) : Act → Option Sys
  | .call i => cfg.stepCall s i
  | .task j => cfg.stepTask s j
  | .crash j => s.crash j

inductive Reachable : Sys → Prop
  | init : Reachable Sys.init
  | step {s s' : Sys} (a : Act) : Reachable s → cfg.next s a = some s' → Reachable s'

def run : Sys → List Act → Option Sys
  | s, [] => some s
  | s, a :: rest => (cfg.next s a).bind (run · rest)

theorem reachable_of_run {s s' : Sys} {l : List Act} (hs : cfg.Reachable s)
    (h : cfg.run s l = some s') : cfg.Reachable s' := by
  induction l generalizing s with
  | nil => cases h; exact hs
  | cons a rest ih =>
    simp only [run] at h
    cases hn : cfg.next s a with
    | none => simp [hn] at h
    | some s1 => exact ih (Reachable.step a hs hn) (by simpa [hn] using h)

theorem reach_of_run {l : List Act} {p : Sys → Bool} (h : (cfg.run Sys.init l).map p = some true) :
    ∃ s, cfg.Reachable s ∧ p s = true := by
  cases hr : cfg.run Sys.init l with
  | none => simp [hr] at h
  | some s => exact ⟨s, cfg.reachable_of_run Reachable.init hr, by simpa [hr] using h⟩

variable {cfg} {s s' : Sys}

theorem stepTask_cases {j : Nat} (h : cfg.stepTask s j = some s') :
    (s.task j = some .running ∧
      s' = { s with task := Function.update s.task j (some .finishing) }) ∨
    (s.task j = some .finishing ∧ s.held (cfg.obj j) = false ∧
      s' = { s with held := Function.update s.held (cfg.obj j) true,
                    task := Function.update s.task j (some .finLocked) }) ∨
    (s.task j = some .finLocked ∧ dictHas s.threads (cfg.answerId j) = true ∧
      s' = { s with task := Function.update s.task j (some .finPresent) }) ∨
    (s.task j = some .finLocked ∧ dictHas s.threads (cfg.answerId j) = false ∧
      s' = { s with task := Function.update s.task j (some .finUnlocking) }) ∨
    (s.task j = some .finPresent ∧ dictHas s.threads (cfg.answerId j) = true ∧
      s' = { s with threads := dictDel s.threads (cfg.answerId j),
                    task := Function.update s.task j (some .finUnlocking) }) ∨
    (s.task j = some .finPresent ∧ dictHas s.threads (cfg.answerId j) = false ∧
      s' = { s with held := Function.update s.held (cfg.obj j) false,
                    task := Function.update s.task j (some .failed) }) ∨
    (s.task j = some .finUnlocking ∧
      s' = { s with held := Function.update s.held (cfg.obj j) false,
                    task := Function.update s.task j (some .writing) }) ∨
    (s.task j = some .writing ∧ s' = { s with task := Function.update s.task j (some .done) }) := by
  unfold stepTask at h
  cases hc : s.task j with
  | none => simp [hc] at h
  | some tp =>
    cases tp <;> simp only [hc, Option.some.injEq, reduceCtorEq, false_and, and_false,
      true_and, false_or, or_false] at h ⊢
    case running | finUnlocking | writing => exact h.symm
    case finishing =>
      split at h
      · cases h
      · rename_i hfree
        exact ⟨Bool.eq_false_iff.2 hfree, (Option.some.inj h).symm⟩
    case finLocked | finPresent =>
      cases hd : dictHas s.threads (cfg.answerId j) <;>
        simp only [hd, Bool.false_eq_true, Bool.true_eq_false, if_false, if_true, false_and,
          true_and, false_or, or_false, Option.some.injEq] at h ⊢ <;> exact h.symm

theorem stepTask_frame {j : Nat} (h : cfg.stepTask s j = some s') :
    s'.caller = s.caller ∧ (∃ pc, s'.task = Function.update s.task j (some pc)) ∧
      (s'.threads = s.threads ∨ s'.threads = dictDel s.threads (cfg.answerId j)) := by
  rcases stepTask_cases h with ⟨-, rfl⟩ | ⟨-, -, rfl⟩ | ⟨-, -, rfl⟩ | ⟨-, -, rfl⟩ | ⟨-, -, rfl⟩ |
    ⟨-, -, rfl⟩ | ⟨-, rfl⟩ | ⟨-, rfl⟩ <;> exact ⟨rfl, ⟨_, rfl⟩, by simp⟩

theorem stepCall_cases {i : Nat} (h : cfg.stepCall s i = some s') :
    i < cfg.calls.length ∧
    ((s.caller i = .start ∧ (∃ e, (cfg.question i).leaf (cfg.project i).name = .error e) ∧
      s' = { s with caller := Function.update s.caller i .raised }) ∨
    (s.caller i = .start ∧ (∃ n, (cfg.question i).leaf (cfg.project i).name = .ok n) ∧
      s.held (cfg.obj i) = false ∧
      s' = { s with held := Function.update s.held (cfg.obj i) true,
                    caller := Function.update s.caller i .locked }) ∨
    (s.caller i = .locked ∧ dictHas s.threads (cfg.answerId i) = true ∧
      s' = { s with held := Function.update s.held (cfg.obj i) false,
                    caller := Function.update s.caller i .returned }) ∨
    (s.caller i = .locked ∧ dictHas s.threads (cfg.answerId i) = false ∧
      s' = { s with caller := Function.update s.caller i .absent }) ∨
    (s.caller i = .absent ∧
      s' = { s with threads := dictSet s.threads (cfg.answerId i) i,
                    task := Function.update s.task i (some .running),
                    caller := Function.update s.caller i .registered }) ∨
    (s.caller i = .registered ∧
      s' = { s with held := Function.update s.held (cfg.obj i) false,
                    caller := Function.update s.caller i .returned })) := by
  unfold stepCall at h
  split at h
  · rename_i hi
    refine ⟨hi, ?_⟩
    cases hc : s.caller i <;> simp only [hc, Option.some.injEq, reduceCtorEq, false_and,
      and_false, true_and, false_or, or_false] at h ⊢
    case start =>
      split at h
      · exact .inl ⟨⟨_, ‹_›⟩, (Option.some.inj h).symm⟩
      · split at h
        · cases h
        · rename_i hfree
          exact .inr ⟨⟨_, ‹_›⟩, Bool.eq_false_iff.2 hfree, (Option.some.inj h).symm⟩
    case locked =>
      split at h
      · exact .inl ⟨‹_›, (Option.some.inj h).symm⟩
      · rename_i hnot
        exact .inr ⟨Bool.eq_false_iff.2 hnot, (Option.some.inj h).symm⟩
    case absent => exact h.symm
    case registered => exact h.symm
  · cases h

theorem crash_cases {j : Nat} (h : s.crash j = some s') :
    (s.task j = some .running ∧
      s' = { s with task := Function.update s.task j (some .crashed) }) ∨
    (s.task j = some .writing ∧ s' = { s with task := Function.update s.task j (some .failed) }) := by
  unfold Sys.crash at h
  split at h <;> simp_all

end Config

inductive Holder
  | caller (i : Nat)
  | task (j : Nat)
  deriving DecidableEq

def Holder.index : Holder → Nat
  | .caller i => i
  | .task j => j

def Sys.holds (s : Sys) : Holder → Bool
  | .caller i => (s.caller i).holds
  | .task j => ((s.task j).map TaskPc.holds).getD false

namespace Config

variable (cfg : Config)

/-- Every answer id is asked through one `Question` object, so one lock guards its entry. -/
def OneObjectPerId : Prop :=
  ∀ i < cfg.calls.length, ∀ k < cfg.calls.length,
    cfg.answerId i = cfg.answerId k → cfg.obj i = cfg.obj k

instance : Decidable cfg.OneObjectPerId := by unfold OneObjectPerId; infer_instance

def LockInv (s : Sys) : Prop :=
  ∀ x, s.holds x = true → s.held (cfg.obj x.index) = true ∧
    ∀ y, s.holds y = true → cfg.obj y.index = cfg.obj x.index → y = x

def RegistryInv (s : Sys) : Prop :=
  ∀ id j, s.threads.lookup id = some j ↔ s.registered j = true ∧ cfg.answerId j = id

def AbsentInv (s : Sys) : Prop :=
  ∀ i, s.caller i = .absent → i < cfg.calls.length ∧
    ∀ j, s.registered j = true → cfg.answerId j ≠ cfg.answerId i

structure Inv (s : Sys) : Prop where
  lock : cfg.LockInv s
  registry : cfg.RegistryInv s
  absent : cfg.AbsentInv s

variable {cfg} {s s' : Sys}

theorem LockInv.of_sub (h : cfg.LockInv s) (hh : s'.held = s.held)
    (hx : ∀ x, s'.holds x = true → s.holds x = true) : cfg.LockInv s' := by
  intro x hxs
  rw [hh]
  exact ⟨(h x (hx x hxs)).1, fun y hys => (h x (hx x hxs)).2 y (hx y hys)⟩

theorem LockInv.acquire (h : cfg.LockInv s) (x0 : Holder)
    (hfree : s.held (cfg.obj x0.index) = false)
    (hh : s'.held = Function.update s.held (cfg.obj x0.index) true)
    (hx : ∀ x, s'.holds x = if x = x0 then true else s.holds x) : cfg.LockInv s' := by
  have busy : ∀ y, s.holds y = true → cfg.obj y.index ≠ cfg.obj x0.index := fun y hy he => by
    have := (h y hy).1
    rw [he, hfree] at this
    cases this
  intro x hxs
  rw [hx] at hxs
  split_ifs at hxs with hx0
  · subst hx0
    refine ⟨by rw [hh, Function.update_same], fun y hys hyo => ?_⟩
    rw [hx] at hys
    split_ifs at hys with hy0
    · exact hy0
    · exact absurd hyo (busy y hys)
  · refine ⟨by rw [hh, Function.update_noteq (busy x hxs)]; exact (h x hxs).1, fun y hys hyo => ?_⟩
    rw [hx] at hys
    split_ifs at hys with hy0
    · subst hy0
      exact absurd hyo.symm (busy x hxs)
    · exact (h x hxs).2 y hys hyo

theorem LockInv.release (h : cfg.LockInv s) (x0 : Holder) (h0 : s.holds x0 = true)
    (hh : s'.held = Function.update s.held (cfg.obj x0.index) false)
    (hx : ∀ x, s'.holds x = if x = x0 then false else s.holds x) : cfg.LockInv s' := by
  have hsub : ∀ x, s'.holds x = true → x ≠ x0 ∧ s.holds x = true := fun x hxs => by
    by_cases hx0 : x = x0
    · rw [hx, if_pos hx0] at hxs
      cases hxs
    · rw [hx, if_neg hx0] at hxs
      exact ⟨hx0, hxs⟩
  intro x hxs
  obtain ⟨hne, hxs⟩ := hsub x hxs
  refine ⟨?_, fun y hys hyo => (h x hxs).2 y (hsub y hys).2 hyo⟩
  rw [hh, Function.update_noteq fun he => hne ((h x0 h0).2 x hxs he)]
  exact (h x hxs).1

theorem RegistryInv.unique (h : cfg.RegistryInv s) {j k : Nat} (hj : s.registered j = true)
    (hk : s.registered k = true) (he : cfg.answerId j = cfg.answerId k) : j = k := by
  have := (h _ j).2 ⟨hj, rfl⟩
  rw [(h _ k).2 ⟨hk, he.symm⟩] at this
  exact (Option.some.inj this).symm

theorem RegistryInv.of_eq (h : cfg.RegistryInv s) (ht : s'.threads = s.threads)
    (hr : ∀ j, s'.registered j = s.registered j) : cfg.RegistryInv s' := by
  intro id j
  rw [ht, hr]
  exact h id j

theorem RegistryInv.register (h : cfg.RegistryInv s) {k : Nat}
    (hfree : ∀ j, s.registered j = true → cfg.answerId j ≠ cfg.answerId k)
    (ht : s'.threads = dictSet s.threads (cfg.answerId k) k)
    (hr : ∀ j, s'.registered j = true ↔ j = k ∨ s.registered j = true) : cfg.RegistryInv s' := by
  intro id j
  rw [ht, lookup_dictSet, hr]
  split
  · subst id
    constructor
    · rintro ⟨⟩
      exact ⟨Or.inl rfl, rfl⟩
    · rintro ⟨rfl | hj, he⟩
      · rfl
      · exact absurd he (hfree j hj)
  · rename_i hid
    rw [h id j]
    constructor
    · exact fun ⟨hj, he⟩ => ⟨Or.inr hj, he⟩
    · rintro ⟨rfl | hj, he⟩
      · exact absurd he.symm hid
      · exact ⟨hj, he⟩

theorem RegistryInv.drop (h : cfg.RegistryInv s) {k : Nat} (hk : s.registered k = true)
    (ht : s'.threads = dictDel s.threads (cfg.answerId k))
    (hr : ∀ j, s'.registered j = true ↔ j ≠ k ∧ s.registered j = true) : cfg.RegistryInv s' := by
  intro id j
  rw [ht, lookup_dictDel, hr]
  split
  · subst id
    simp only [reduceCtorEq, false_iff, not_and]
    exact fun ⟨hne, hj⟩ he => hne (h.unique hj hk he)
  · rename_i hid
    rw [h id j]
    constructor
    · rintro ⟨hj, rfl⟩
      exact ⟨⟨fun hjk => hid (by rw [hjk]), hj⟩, rfl⟩
    · exact fun ⟨⟨_, hj⟩, he⟩ => ⟨hj, he⟩

theorem AbsentInv.of_sub (h : cfg.AbsentInv s)
    (hc : ∀ k, s'.caller k = .absent → s.caller k = .absent)
    (hr : ∀ j, s'.registered j = true → s.registered j = true) : cfg.AbsentInv s' :=
  fun k hk => ⟨(h k (hc k hk)).1, fun j hj => (h k (hc k hk)).2 j (hr j hj)⟩

theorem AbsentInv.found (h : cfg.AbsentInv s) {i : Nat} (hi : i < cfg.calls.length)
    (hfree : ∀ j, s.registered j = true → cfg.answerId j ≠ cfg.answerId i)
    (hcall : s'.caller = Function.update s.caller i .absent)
    (hr : ∀ j, s'.registered j = s.registered j) : cfg.AbsentInv s' := by
  intro k hk
  rw [hcall, Function.update_apply] at hk
  simp only [hr]
  split_ifs at hk with hki
  · subst hki
    exact ⟨hi, hfree⟩
  · exact h k hk

theorem AbsentInv.register (hcfg : cfg.OneObjectPerId) (hl : cfg.LockInv s) (h : cfg.AbsentInv s)
    {i : Nat} (hc : s.caller i = .absent)
    (hcall : s'.caller = Function.update s.caller i .registered)
    (hr : ∀ j, s'.registered j = true ↔ j = i ∨ s.registered j = true) : cfg.AbsentInv s' := by
  intro k hk
  by_cases hki : k = i
  · rw [hcall, hki, Function.update_same] at hk
    cases hk
  · rw [hcall, Function.update_noteq hki] at hk
    refine ⟨(h k hk).1, fun j hj he => ?_⟩
    rcases (hr j).1 hj with rfl | hj
    · have ho := hcfg j (h j hc).1 k (h k hk).1 he
      have := (hl (.caller j) (by simp [Sys.holds, hc, CallerPc.holds])).2 (.caller k)
        (by simp [Sys.holds, hk, CallerPc.holds]) (by simpa [Holder.index] using ho.symm)
      exact hki (Holder.caller.inj this)
    · exact (h k hk).2 j hj he

theorem registered_of_task_eq (ht : s'.task = s.task) (k : Nat) :
    s'.registered k = s.registered k := by
  simp [Sys.registered, ht]

theorem update_absent {c : Nat → CallerPc} {i k : Nat} {pc : CallerPc} (hpc : pc ≠ .absent)
    (hk : Function.update c i pc k = .absent) : c k = .absent := by
  rw [Function.update_apply] at hk
  split_ifs at hk
  · exact absurd hk hpc
  · exact hk

theorem Inv.of_lock (hs : cfg.Inv s) (hl : cfg.LockInv s') (hcall : s'.caller = s.caller)
    (hth : s'.threads = s.threads) (hr : ∀ k, s'.registered k = s.registered k) : cfg.Inv s' :=
  ⟨hl, hs.registry.of_eq hth hr, hs.absent.of_sub (fun _ h => hcall ▸ h) fun k h => hr k ▸ h⟩

theorem Inv.of_caller (hs : cfg.Inv s) (hl : cfg.LockInv s') {i : Nat} {pc : CallerPc}
    (hcall : s'.caller = Function.update s.caller i pc) (hpc : pc ≠ .absent)
    (hth : s'.threads = s.threads) (ht : s'.task = s.task) : cfg.Inv s' :=
  ⟨hl, hs.registry.of_eq hth (registered_of_task_eq ht),
    hs.absent.of_sub (fun _ h => update_absent hpc (hcall ▸ h))
      fun k h => registered_of_task_eq ht k ▸ h⟩

section Frame

variable (th : List (String × Nat)) (hd : Nat → Bool) (c : Nat → CallerPc) {i j : Nat}
  {pc pc₀ : CallerPc} {tp tp' : TaskPc}

theorem holds_mk_task (t : Nat → Option TaskPc) (x : Holder) :
    (Sys.mk th hd c (Function.update t j (some tp))).holds x =
      if x = .task j then tp.holds else (Sys.mk th hd c t).holds x := by
  cases x with
  | caller k => simp [Sys.holds]
  | task k => by_cases hk : k = j <;> simp [Sys.holds, Function.update_apply, hk]

theorem holds_mk_caller (x : Holder) :
    (Sys.mk th hd (Function.update s.caller i pc) s.task).holds x =
      if x = .caller i then pc.holds else s.holds x := by
  cases x with
  | caller k => by_cases hk : k = i <;> simp [Sys.holds, Function.update_apply, hk]
  | task k => simp [Sys.holds]

theorem holds_mk_caller_eq (hc : s.caller i = pc₀) (pc : CallerPc) (h : pc.holds = pc₀.holds)
    (x : Holder) :
    (Sys.mk th hd (Function.update s.caller i pc) s.task).holds x = s.holds x := by
  rw [holds_mk_caller]
  split_ifs with hx
  · rw [hx, h, ← hc]
    rfl
  · rfl

theorem registered_mk_task (k : Nat) :
    (Sys.mk th hd c (Function.update s.task j (some tp))).registered k =
      if k = j then tp.registered else s.registered k := by
  by_cases hk : k = j <;> simp [Sys.registered, Function.update_apply, hk]

theorem holds_task_of (hc : s.task j = some tp) : s.holds (.task j) = tp.holds := by
  simp [Sys.holds, hc]

theorem registered_of (hc : s.task j = some tp) : s.registered j = tp.registered := by
  simp [Sys.registered, hc]

theorem registered_mk_task_eq (hc : s.task j = some tp) (tp' : TaskPc)
    (hreg : tp'.registered = tp.registered) (k : Nat) :
    (Sys.mk th hd c (Function.update s.task j (some tp'))).registered k = s.registered k := by
  rw [registered_mk_task]
  split_ifs with hk
  · rw [hk, registered_of hc, hreg]
  · rfl

theorem Inv.setTask (hs : cfg.Inv s) (hc : s.task j = some tp) (tp' : TaskPc)
    (hhold : tp'.holds = tp.holds) (hreg : tp'.registered = tp.registered) :
    cfg.Inv (Sys.mk s.threads s.held s.caller (Function.update s.task j (some tp'))) := by
  refine hs.of_lock (hs.lock.of_sub rfl fun x h => ?_) rfl rfl
    (registered_mk_task_eq _ _ _ hc tp' hreg)
  rw [holds_mk_task] at h
  split_ifs at h with hx
  · rwa [hx, holds_task_of hc, ← hhold]
  · exact h

end Frame

theorem Inv.stepTask (hs : cfg.Inv s) {j : Nat} (h : cfg.stepTask s j = some s') : cfg.Inv s' := by
  have present : ∀ {tp : TaskPc}, s.task j = some tp → tp.registered = true →
      dictHas s.threads (cfg.answerId j) = true := fun hc hr => by
    rw [dictHas_eq_isSome, (hs.registry _ j).2 ⟨by rw [registered_of hc]; exact hr, rfl⟩]
    rfl
  rcases stepTask_cases h with ⟨hc, rfl⟩ | ⟨hc, hfree, rfl⟩ | ⟨hc, -, rfl⟩ | ⟨hc, hd, -⟩ |
    ⟨hc, -, rfl⟩ | ⟨hc, hd, -⟩ | ⟨hc, rfl⟩ | ⟨hc, rfl⟩
  · exact hs.setTask hc .finishing rfl rfl
  · exact hs.of_lock (hs.lock.acquire (.task j) hfree rfl (holds_mk_task _ _ _ _)) rfl rfl
      (registered_mk_task_eq _ _ _ hc .finLocked rfl)
  · exact hs.setTask hc .finPresent rfl rfl
  · -- a registered thread finds its id: the other branch of the check never runs
    rw [present hc rfl] at hd
    cases hd
  · refine ⟨hs.lock.of_sub rfl fun x h => ?_,
      hs.registry.drop (by rw [registered_of hc]; rfl) rfl fun k => ?_,
      hs.absent.of_sub (fun _ => id) fun k hk => ?_⟩
    · rw [holds_mk_task] at h
      split_ifs at h with hx
      · rw [hx, holds_task_of hc]; rfl
      · exact h
    · rw [registered_mk_task]
      split_ifs with hk <;> simp [hk, TaskPc.registered]
    · rw [registered_mk_task] at hk
      split_ifs at hk
      · cases hk
      · exact hk
  · -- nor does the `del` raise: one lock guards the id
    rw [present hc rfl] at hd
    cases hd
  · exact hs.of_lock (hs.lock.release (.task j) (by rw [holds_task_of hc]; rfl) rfl
      (holds_mk_task _ _ _ _)) rfl rfl (registered_mk_task_eq _ _ _ hc .writing rfl)
  · exact hs.setTask hc .done rfl rfl

theorem Inv.crash (hs : cfg.Inv s) {j : Nat} (h : s.crash j = some s') : cfg.Inv s' := by
  rcases crash_cases h with ⟨hc, rfl⟩ | ⟨hc, rfl⟩
  · exact hs.setTask hc .crashed rfl rfl
  · exact hs.setTask hc .failed rfl rfl

theorem Inv.stepCall (hcfg : cfg.OneObjectPerId) (hs : cfg.Inv s) {i : Nat}
    (h : cfg.stepCall s i = some s') : cfg.Inv s' := by
  have holds_of : ∀ {pc}, s.caller i = pc → s.holds (.caller i) = pc.holds := fun hc => by
    simp [Sys.holds, hc]
  obtain ⟨hi, ⟨hc, -, rfl⟩ | ⟨hc, -, hfree, rfl⟩ | ⟨hc, -, rfl⟩ | ⟨hc, hnot, rfl⟩ | ⟨hc, rfl⟩ |
    ⟨hc, rfl⟩⟩ := stepCall_cases h
  · refine hs.of_caller (hs.lock.of_sub rfl fun x hx => ?_) rfl (by decide) rfl rfl
    rwa [holds_mk_caller_eq _ _ hc .raised rfl] at hx
  · exact hs.of_caller (hs.lock.acquire (.caller i) hfree rfl (holds_mk_caller _ _)) rfl
      (by decide) rfl rfl
  · exact hs.of_caller (hs.lock.release (.caller i) (holds_of hc) rfl (holds_mk_caller _ _)) rfl
      (by decide) rfl rfl
  · refine ⟨hs.lock.of_sub rfl fun x hx => ?_, hs.registry.of_eq rfl fun _ => rfl,
      hs.absent.found hi (fun j hj he => ?_) rfl fun _ => rfl⟩
    · rwa [holds_mk_caller_eq _ _ hc .absent rfl] at hx
    · rw [dictHas_eq_isSome, (hs.registry _ j).2 ⟨hj, he⟩] at hnot
      cases hnot
  · have hr : ∀ j, (Sys.mk (dictSet s.threads (cfg.answerId i) i) s.held
        (Function.update s.caller i .registered)
        (Function.update s.task i (some .running))).registered j = true ↔
        j = i ∨ s.registered j = true := fun j => by
      rw [registered_mk_task]
      split_ifs with hj <;> simp [hj, TaskPc.registered]
    refine ⟨hs.lock.of_sub rfl fun x hx => ?_,
      hs.registry.register (hs.absent i hc).2 rfl hr, hs.absent.register hcfg hs.lock hc rfl hr⟩
    rw [holds_mk_task, holds_mk_caller_eq _ _ hc .registered rfl] at hx
    split_ifs at hx
    · cases hx
    · exact hx
  · exact hs.of_caller (hs.lock.release (.caller i) (holds_of hc) rfl (holds_mk_caller _ _)) rfl
      (by decide) rfl rfl

theorem Inv.next (hcfg : cfg.OneObjectPerId) (hs : cfg.Inv s) {a : Act}
    (h : cfg.next s a = some s') : cfg.Inv s' := by
  cases a with
  | call i => exact hs.stepCall hcfg h
  | task j => exact hs.stepTask h
  | crash j => exact hs.crash h

theorem inv_init : cfg.Inv Sys.init where
  lock x hx := by cases x <;> simp [Sys.holds, Sys.init, CallerPc.holds] at hx
  registry id j := by simp [Sys.init, Sys.registered]
  absent i hi := by simp [Sys.init] at hi

theorem Reachable.inv (hcfg : cfg.OneObjectPerId) (hs : cfg.Reachable s) : cfg.Inv s := by
  induction hs with
  | init => exact inv_init
  | step a _ hn ih => exact ih.next hcfg hn

theorem reachable_run_getD {l : List Act} (h : (cfg.run Sys.init l).isSome = true) :
    cfg.Reachable ((cfg.run Sys.init l).getD Sys.init) := by
  cases hr : cfg.run Sys.init l with
  | none => simp [hr] at h
  | some s => exact cfg.reachable_of_run Reachable.init hr

theorem answerForProject_registers_once (hcfg : cfg.OneObjectPerId) (hs : cfg.Reachable s) :
    (∀ id j, s.threads.lookup id = some j ↔ s.registered j = true ∧ cfg.answerId j = id) ∧
    (∀ j k, s.registered j = true → s.registered k = true → cfg.answerId j = cfg.answerId k →
      j = k) ∧
    (∀ i j, s.caller i = .absent → s.registered j = true → cfg.answerId j ≠ cfg.answerId i) := by
  have hi := hs.inv hcfg
  exact ⟨hi.registry, fun _ _ => hi.registry.unique, fun i j hc => (hi.absent i hc).2 j⟩

theorem crash_task {s' : Sys} {k : Nat} (h : s.crash k = some s') {j : Nat} (hj : j ≠ k) :
    s'.task j = s.task j := by
  rcases crash_cases h with ⟨-, rfl⟩ | ⟨-, rfl⟩ <;> exact Function.update_noteq hj _ _

theorem stepTask_task {s' : Sys} {k : Nat} (h : cfg.stepTask s k = some s') {j : Nat}
    (hj : j ≠ k) : s'.task j = s.task j := by
  obtain ⟨-, ⟨_, ht⟩, -⟩ := stepTask_frame h
  rw [ht, Function.update_noteq hj]

theorem stepCall_task {s' : Sys} {i : Nat} (h : cfg.stepCall s i = some s') {j : Nat}
    (hj : j ≠ i ∨ s.caller i ≠ .absent) : s'.task j = s.task j := by
  obtain ⟨-, ⟨-, -, rfl⟩ | ⟨-, -, -, rfl⟩ | ⟨-, -, rfl⟩ | ⟨-, -, rfl⟩ | ⟨hc, rfl⟩ | ⟨-, rfl⟩⟩ :=
    stepCall_cases h
  any_goals rfl
  exact hj.elim (Function.update_noteq · _ _) (absurd hc)

theorem Inv.next_crashed (hs : cfg.Inv s) {j : Nat} (hj : s.task j = some .crashed) {a : Act}
    {s' : Sys} (h : cfg.next s a = some s') : s'.task j = some .crashed := by
  rw [← hj]
  cases a with
  | call i =>
    refine stepCall_task h (not_and_or.1 fun ⟨hji, hc⟩ => ?_)
    subst hji
    exact (hs.absent j hc).2 j (by rw [registered_of hj]; rfl) rfl
  | task k =>
    refine stepTask_task h fun hk => ?_
    subst hk
    rcases stepTask_cases h with ⟨hc, -⟩ | ⟨hc, -⟩ | ⟨hc, -⟩ | ⟨hc, -⟩ | ⟨hc, -⟩ | ⟨hc, -⟩ |
      ⟨hc, -⟩ | ⟨hc, -⟩ <;> simp [hj] at hc
  | crash k =>
    refine crash_task h fun hk => ?_
    subst hk
    rcases crash_cases h with ⟨hc, -⟩ | ⟨hc, -⟩ <;> simp [hj] at hc

theorem crashed_blocks (hcfg : cfg.OneObjectPerId) (hs : cfg.Reachable s) {j : Nat}
    (hj : s.task j = some .crashed) :
    s.threads.lookup (cfg.answerId j) = some j ∧
    (∀ a s', cfg.next s a = some s' → s'.task j = some .crashed) ∧
    ∀ i < cfg.calls.length, cfg.answerId i = cfg.answerId j → s.caller i = .locked →
      (cfg.stepCall s i).map (fun s' => (s'.caller i, s'.task i)) = some (.returned, s.task i) := by
  have hinv := hs.inv hcfg
  have hlook := (hinv.registry _ j).2 ⟨by rw [registered_of hj]; rfl, rfl⟩
  refine ⟨hlook, fun _ _ => hinv.next_crashed hj, fun i hi he hc => ?_⟩
  have hd : dictHas s.threads (cfg.answerId i) = true := by
    rw [dictHas_eq_isSome, he, hlook]
    rfl
  simp [Config.stepCall, hi, hc, hd]

end Config

section Refines

variable {cfg : Config} {s : Sys}

theorem update_update_self {f : Nat → Bool} {o : Nat} (h : f o = false) :
    Function.update (Function.update f o true) o false = f := by
  rw [Function.update_idem, ← h, Function.update_eq_self]

theorem callAlone_refines {i : Nat} (hi : i < cfg.calls.length) (hc : s.caller i = .start)
    (hfree : s.held (cfg.obj i) = false) (w : World) (hw : w.threads = s.threads) :
    ∃ n s', cfg.run s (List.replicate n (.call i)) = some s' ∧
      s'.threads = (finalWorld ((cfg.question i).answerForProject (cfg.project i) i w)).threads ∧
      s'.held = s.held ∧
      match returnValue ((cfg.question i).answerForProject (cfg.project i) i w) with
      | none => s'.caller i = .raised ∧ s'.task = s.task
      | some none => s'.caller i = .returned ∧ s'.task = s.task
      | some (some _) =>
        s'.caller i = .returned ∧ s'.task = Function.update s.task i (some .running) := by
  cases hleaf : (cfg.question i).leaf (cfg.project i).name with
  | error e =>
    refine ⟨1, { s with caller := Function.update s.caller i .raised },
      by simp [Config.run, Config.next, Config.stepCall, hi, hc, hleaf], ?_⟩
    simp [Question.answerForProject, hleaf, liftExcept, hw, returnValue, finalWorld]
  | ok leaf =>
    rw [answerForProject_eq hleaf]
    by_cases hd : dictHas s.threads (cfg.answerId i) = true
    · refine ⟨2, { s with caller := Function.update s.caller i .returned },
        by simp [Config.run, Config.next, Config.stepCall, hi, hc, hleaf, hfree, hd,
          update_update_self hfree], ?_⟩
      simp only [Config.answerId] at hd
      simp [hw, hd, returnValue, finalWorld]
    · let s' : Sys := ⟨dictSet s.threads (cfg.answerId i) i, s.held,
        Function.update s.caller i .returned, Function.update s.task i (some .running)⟩
      refine ⟨4, s', by simp [s', Config.run, Config.next, Config.stepCall, hi, hc, hleaf, hfree,
        hd, update_update_self hfree], ?_⟩
      simp only [Config.answerId] at hd
      simp [s', Config.answerId, hw, hd, returnValue, finalWorld]

theorem taskAlone_refines {j : Nat} (hc : s.task j = some .running)
    (hfree : s.held (cfg.obj j) = false) {leaf : Nat}
    (hleaf : (cfg.question j).leaf (cfg.project j).name = .ok leaf) (E : Env) (F : Forest)
    (w : World) (hw : w.threads = s.threads) :
    ∃ l s', cfg.run s l = some s' ∧ (∀ a ∈ l, a = .task j ∨ a = .crash j) ∧
      s'.threads = (finalWorld ((cfg.question j)._answerForProject E F (cfg.project j) w)).threads ∧
      s'.held = s.held ∧ s'.caller = s.caller ∧
      s'.task = Function.update s.task j (some (if returned (callnode E F leaf (-1)
        (some ((cfg.question j).oncomplete E F (cfg.project j))) w) then .writing else .crashed)) := by
  rw [answerForProject_threads hleaf w, hw]
  by_cases hr : returned (callnode E F leaf (-1)
    (some ((cfg.question j).oncomplete E F (cfg.project j))) w) = true
  · simp only [hr, if_true]
    by_cases hd : dictHas s.threads (cfg.answerId j) = true
    · refine ⟨List.replicate 5 (.task j), ⟨dictDel s.threads (cfg.answerId j), s.held, s.caller,
        Function.update s.task j (some .writing)⟩, ?_, by simp [List.mem_replicate], ?_⟩
      · simp [Config.run, Config.next, Config.stepTask, hc, hfree, hd, update_update_self hfree]
      · simp only [Config.answerId] at hd
        simp [hd, Config.answerId]
    · refine ⟨List.replicate 4 (.task j), ⟨s.threads, s.held, s.caller,
        Function.update s.task j (some .writing)⟩, ?_, by simp [List.mem_replicate], ?_⟩
      · simp [Config.run, Config.next, Config.stepTask, hc, hfree, hd, update_update_self hfree]
      · simp only [Config.answerId] at hd
        simp [hd]
  · refine ⟨[.crash j], ⟨s.threads, s.held, s.caller, Function.update s.task j (some .crashed)⟩,
      by simp [Config.run, Config.next, Sys.crash, hc], by simp, ?_⟩
    simp [hr]

end Refines

namespace Sample

def twice : Config := ⟨[asked], [⟨0, jobScheduler⟩, ⟨0, jobScheduler⟩]⟩

def loadedTwice : Config := ⟨[asked, asked], [⟨0, jobScheduler⟩, ⟨1, jobScheduler⟩]⟩

def spaced : Config :=
  ⟨[(question.addProject memoryAutoscaler 1).addProject memoryAutoscalerNoSpace 1],
    [⟨0, memoryAutoscaler⟩, ⟨0, memoryAutoscalerNoSpace⟩]⟩

end Sample

theorem answerForProject_two_live_tasks :
    (∃ s, Sample.twice.Reachable s ∧ s.live 0 = true ∧ s.live 1 = true) ∧
      Sample.twice.folder 0 = Sample.twice.folder 1 ∧
    (∃ s, Sample.loadedTwice.Reachable s ∧ s.live 0 = true ∧ s.live 1 = true) ∧
      Sample.loadedTwice.folder 0 = Sample.loadedTwice.folder 1 ∧
    (∃ s, Sample.spaced.Reachable s ∧ s.live 0 = true ∧ s.live 1 = true) ∧
      Sample.spaced.folder 0 = Sample.spaced.folder 1 := by
  refine ⟨?_, by decide, ?_, by decide, ?_, by decide⟩
  · obtain ⟨s, hs, h⟩ := Sample.twice.reach_of_run (p := fun s => s.live 0 && s.live 1)
      (l := [.call 0, .call 0, .call 0, .call 0, .task 0, .task 0, .task 0, .task 0, .task 0,
        .call 1, .call 1, .call 1]) (by decide)
    exact ⟨s, hs, by simpa using h⟩
  · obtain ⟨s, hs, h⟩ := Sample.loadedTwice.reach_of_run (p := fun s => s.live 0 && s.live 1)
      (l := [.call 0, .call 1, .call 0, .call 1, .call 0, .call 1]) (by decide)
    exact ⟨s, hs, by simpa using h⟩
  · obtain ⟨s, hs, h⟩ := Sample.spaced.reach_of_run (p := fun s => s.live 0 && s.live 1)
      (l := [.call 0, .call 0, .call 0, .call 0, .call 1, .call 1, .call 1]) (by decide)
    exact ⟨s, hs, by simpa using h⟩

example : (Sample.loadedTwice.run Sys.init [.call 0, .call 1, .call 0, .call 1, .call 0, .call 1,
    .call 0, .call 1, .task 0, .task 0, .task 0, .task 1, .task 1, .task 1, .task 1, .task 0]).map
      (·.task 0) = some (some .failed) := by
  decide

namespace Sample

def secondLocked : Sys :=
  (twice.run Sys.init [.call 0, .call 0, .call 0, .call 0, .call 1]).getD Sys.init

def started : Sys := (twice.run Sys.init [.call 0, .call 0, .call 0, .call 0]).getD Sys.init

def afterCrash : Sys :=
  (twice.run Sys.init [.call 0, .call 0, .call 0, .call 0, .crash 0, .call 1]).getD Sys.init

end Sample

theorem answerForProject_registers_once_twice :
    Sample.twice.OneObjectPerId ∧ Sample.secondLocked.registered 0 = true ∧
      ((∀ id j, Sample.secondLocked.threads.lookup id = some j ↔
          Sample.secondLocked.registered j = true ∧ Sample.twice.answerId j = id) ∧
        (∀ j k, Sample.secondLocked.registered j = true →
          Sample.secondLocked.registered k = true →
          Sample.twice.answerId j = Sample.twice.answerId k → j = k) ∧
        (∀ i j, Sample.secondLocked.caller i = .absent → Sample.secondLocked.registered j = true →
          Sample.twice.answerId j ≠ Sample.twice.answerId i)) :=
  ⟨by decide, by decide,
    Config.answerForProject_registers_once (by decide) (Config.reachable_run_getD (by decide))⟩

theorem crashed_blocks_twice :
    Sample.afterCrash.task 0 = some .crashed ∧ Sample.afterCrash.caller 1 = .locked ∧
      (Sample.afterCrash.threads.lookup (Sample.twice.answerId 0) = some 0 ∧
        (∀ a s', Sample.twice.next Sample.afterCrash a = some s' → s'.task 0 = some .crashed) ∧
        ∀ i < Sample.twice.calls.length, Sample.twice.answerId i = Sample.twice.answerId 0 →
          Sample.afterCrash.caller i = .locked →
          (Sample.twice.stepCall Sample.afterCrash i).map (fun s' => (s'.caller i, s'.task i)) =
            some (.returned, Sample.afterCrash.task i)) :=
  ⟨by decide, by decide,
    Config.crashed_blocks (by decide) (Config.reachable_run_getD (by decide)) (by decide)⟩

theorem taskAlone_refines_started :
    ∃ l s', Sample.twice.run Sample.started l = some s' ∧ (∀ a ∈ l, a = .task 0 ∨ a = .crash 0) ∧
      s'.threads = (finalWorld ((Sample.twice.question 0)._answerForProject Sample.replies
        Sample.chain (Sample.twice.project 0)
        { Sample.world with threads := Sample.started.threads })).threads ∧
      s'.held = Sample.started.held ∧ s'.caller = Sample.started.caller ∧
      s'.task = Function.update Sample.started.task 0 (some (if returned (callnode Sample.replies
        Sample.chain 1 (-1) (some ((Sample.twice.question 0).oncomplete Sample.replies Sample.chain
          (Sample.twice.project 0))) { Sample.world with threads := Sample.started.threads })
        then .writing else .crashed)) :=
  taskAlone_refines (by decide) (by decide)
    (show (Sample.twice.question 0).leaf (Sample.twice.project 0).name = .ok 1 from rfl)
    Sample.replies Sample.chain _ rfl

end AnswerChain.Core
