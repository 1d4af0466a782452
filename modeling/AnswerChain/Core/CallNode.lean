import Mathlib.Data.List.Nodup
import AnswerChain.Core.World

namespace AnswerChain.Core

abbrev Callback := Nat → Eff Unit

section

variable (E : Env) (F : Forest)

/-- The `params` of the request for `node`, completed after its parent is answered: the parent's
question as `instructions` under an instruction node, else the id of the parent's response, whose
read raises `AttributeError` if the parent never got one. -/
def requestFor (node : Nat) : Eff Request := do
  let info := F.get node
  let params : Request := ⟨info.model, ⟨7, 1⟩, info.question, none, none⟩
  match info.parent with
  | none => pure params
  | some p =>
    if (F.get p).isInstruction then pure { params with instructions := some (F.get p).question }
    else
      match (← getNode p).response with
      | some r => pure { params with previousResponseId := some r.id }
      | none => throw .attributeError

/-- The part of `callnode` after the parent is answered: one request, the attributes it sets, and
the callback. -/
def answerNode (callback : Option Callback) (node : Nat) : Eff Response := do
  let start ← time E
  let req ← requestFor F node
  let resp ← create E node req
  setNode node fun s => { s with response := some resp, responseContent := resp.outputText }
  let t1 ← time E
  setNode node fun s => { s with timeTaken := .float ((t1 : Int) - start) }
  let t2 ← time E
  setNode node fun s => { s with lastAnswered := .float t2 }
  if let some cb := callback then
    logEvent (.callback node)
    cb node
  pure resp

/-- `if t < 0: t = time.time()`. -/
def resolveTime (t : Int) : Eff Int :=
  if t < 0 then (fun c : Nat => (c : Int)) <$> time E else pure t

/-- `callnode` on `node :: ancestors`, the node and its ancestors. The recursive call on
`node.parent` runs on `ancestors`, the parent's own path (`Forest.path_of_parent_some`). -/
def callnodeAlong (callback : Option Callback) : List Nat → Int → Eff Response
  | [], _ => throw .attributeError
  | node :: ancestors, t => do
    let t ← resolveTime E t
    if let some p := (F.get node).parent then
      if (← getNode p).lastAnswered.val < t ∧ (F.get p).isInstruction = false then
        discard <| callnodeAlong callback ancestors t
    answerNode E F callback node

def callnode (node : Nat) (t : Int) (callback : Option Callback) : Eff Response :=
  callnodeAlong E F callback (F.path node) t

/-- The ancestors `callnode` requests before the head of a path, root first: it climbs while the
parent is not an instruction node and was last answered before `t`. -/
def staleAncestors (st : Nat → NodeState) (t : Int) : List Nat → List Nat
  | [] => []
  | node :: ancestors =>
    match (F.get node).parent with
    | some p =>
      if (st p).lastAnswered.val < t ∧ (F.get p).isInstruction = false then
        staleAncestors st t ancestors ++ [p]
      else []
    | none => []

/-- The dispatch order of the design notes: answer the collected ancestors oldest first, then the
node itself. -/
def dispatch (callback : Option Callback) (above : List Nat) (node : Nat) : Eff Response := do
  above.forM fun n => discard (answerNode E F callback n)
  answerNode E F callback node

theorem resolveTime_of_nonneg {t : Int} (ht : 0 ≤ t) : resolveTime E t = pure t := by
  simp [resolveTime, show ¬ t < 0 by omega]

theorem callnodeAlong_path (cb : Option Callback) {t : Int} (ht : 0 ≤ t) (x : Nat) (w : World) :
    callnodeAlong E F cb (F.path x) t w =
      dispatch E F cb (staleAncestors F w.store t (F.path x)) x w := by
  induction x using F.induction generalizing w with
  | root x hx =>
    simp [F.path_of_parent_none hx, callnodeAlong, staleAncestors, dispatch,
      resolveTime_of_nonneg E ht, hx]
  | child x p hx ih =>
    rw [F.path_of_parent_some hx]
    by_cases hs : (w.store p).lastAnswered.val < t ∧ (F.get p).isInstruction = false
    · simp only [callnodeAlong.eq_2, staleAncestors.eq_2, dispatch, resolveTime_of_nonneg E ht,
        hx, hs, bind_run, pure_run, getNode_run, and_self, if_true, discard_run, ih,
        List.forM_append]
      rcases List.forM (staleAncestors F w.store t (F.path p))
        (fun n => discard (answerNode E F cb n)) w with ⟨_, w'⟩ | ⟨e, w'⟩
      · simp only [List.forM_cons', List.forM_nil', bind_run, discard_run, pure_run]
        cases answerNode E F cb p w' <;> rfl
      · rfl
    · simp [callnodeAlong.eq_2, staleAncestors.eq_2, dispatch, resolveTime_of_nonneg E ht, hx, hs]

end

def resolved (E : Env) (t : Int) (w : World) : Int × World :=
  if t < 0 then (E.clock w.reads, { w with reads := w.reads + 1 }) else (t, w)

section

variable (E : Env) (F : Forest)

theorem resolveTime_run (t : Int) (w : World) :
    resolveTime E t w = .ok (resolved E t w).1 (resolved E t w).2 := by
  unfold resolveTime resolved; split <;> simp

theorem resolved_nonneg (t : Int) (w : World) : 0 ≤ (resolved E t w).1 := by
  unfold resolved; split <;> dsimp only <;> omega

@[simp] theorem resolved_store (t : Int) (w : World) : (resolved E t w).2.store = w.store := by
  unfold resolved; split <;> rfl

@[simp] theorem resolved_calls (t : Int) (w : World) : (resolved E t w).2.calls = w.calls := by
  unfold resolved; split <;> rfl

@[simp] theorem resolved_log (t : Int) (w : World) : (resolved E t w).2.log = w.log := by
  unfold resolved; split <;> rfl

theorem resolved_of_nonneg {t : Int} (ht : 0 ≤ t) (w : World) : resolved E t w = (t, w) := by
  simp [resolved, show ¬ t < 0 by omega]

theorem callnode_eq_dispatch (cb : Option Callback) (x : Nat) (t : Int) (w : World) :
    callnode E F x t cb w =
      dispatch E F cb (staleAncestors F w.store (resolved E t w).1 (F.path x)) x
        (resolved E t w).2 := by
  obtain ⟨l, hl⟩ := F.path_head x
  have h0 := resolved_nonneg E t w
  have key : callnodeAlong E F cb (x :: l) t w =
      callnodeAlong E F cb (x :: l) (resolved E t w).1 (resolved E t w).2 := by
    simp only [callnodeAlong.eq_2, bind_run, resolveTime_run, resolved_of_nonneg E h0]
  rw [callnode, hl, key, ← hl, callnodeAlong_path E F cb h0, resolved_store]

def Settled (st : Nat → NodeState) (t : Int) (n : Nat) : Bool :=
  match (F.get n).parent with
  | none => true
  | some p => (F.get p).isInstruction || decide (t ≤ (st p).lastAnswered.val)

def staleSegment (st : Nat → NodeState) (t : Int) (x : Nat) : List Nat :=
  ((F.path x).take ((F.path x).findIdx (Settled F st t) + 1)).reverse

theorem staleAncestors_append (st : Nat → NodeState) (t : Int) (x : Nat) :
    staleAncestors F st t (F.path x) ++ [x] = staleSegment F st t x := by
  induction x using F.induction with
  | root x hx =>
    simp [F.path_of_parent_none hx, staleAncestors, staleSegment, Settled, hx, List.findIdx_cons]
  | child x p hx ih =>
    rw [staleSegment, F.path_of_parent_some hx, staleAncestors.eq_2, List.findIdx_cons]
    by_cases hs : (st p).lastAnswered.val < t ∧ (F.get p).isInstruction = false
    · have : Settled F st t x = false := by
        have := hs.1; simp [Settled, hx, hs.2]; omega
      simp only [hx, hs, and_self, if_true, this, cond_false, List.take_succ_cons,
        List.reverse_cons]
      rw [ih, staleSegment]
    · have : Settled F st t x = true := by
        simp only [Settled, hx, Bool.or_eq_true, decide_eq_true_eq]
        by_contra hc
        simp only [not_or, Bool.not_eq_true] at hc
        exact hs ⟨by omega, hc.1⟩
      simp [hx, hs, this]

theorem isInstruction_of_mem_staleAncestors {st : Nat → NodeState} {t : Int} {x n : Nat}
    (h : n ∈ staleAncestors F st t (F.path x)) : (F.get n).isInstruction = false := by
  induction x using F.induction with
  | root x hx => simp [F.path_of_parent_none hx, staleAncestors, hx] at h
  | child x p hx ih =>
    rw [F.path_of_parent_some hx, staleAncestors.eq_2] at h
    simp only [hx] at h
    split at h
    · rcases List.mem_append.1 h with h | h
      · exact ih h
      · rw [List.mem_singleton.1 h]; exact ‹_ ∧ _›.2
    · simp at h

theorem staleSegment_spec (st : Nat → NodeState) (t : Int) (x : Nat) :
    (staleSegment F st t x).Nodup ∧ (staleSegment F st t x).getLast? = some x ∧
      ∀ n ∈ staleSegment F st t x, (F.get n).isInstruction = true → n = x := by
  refine ⟨List.nodup_reverse.2 ((F.path_nodup x).sublist (List.take_sublist _ _)), ?_, ?_⟩
  · rw [← staleAncestors_append]; simp
  · intro n hn hi
    rw [← staleAncestors_append, List.mem_append, List.mem_singleton] at hn
    rcases hn with hn | rfl
    · simp [isInstruction_of_mem_staleAncestors F hn] at hi
    · rfl

end

section

variable (F : Forest)

def parentResponse (st : Nat → NodeState) (n : Nat) : Option Response :=
  (F.get n).parent.bind fun p => (st p).response

def Readable (st : Nat → NodeState) (n : Nat) : Prop :=
  ∀ p, (F.get n).parent = some p → (F.get p).isInstruction = false → (st p).response.isSome

/-- The request `requestFor` builds for `n` when its parent's response is `prev`: the node's model
and question, and the parent's question as `instructions` under an instruction parent, else the id
of `prev` as `previous_response_id`. -/
def RequestShape (n : Nat) (prev : Option Response) (req : Request) : Prop :=
  req.model = (F.get n).model ∧ req.temperature = ⟨7, 1⟩ ∧ req.input = (F.get n).question ∧
  match (F.get n).parent with
  | none => req.instructions = none ∧ req.previousResponseId = none
  | some p =>
    if (F.get p).isInstruction then
      req.instructions = some (F.get p).question ∧ req.previousResponseId = none
    else req.instructions = none ∧ ∃ r, prev = some r ∧ req.previousResponseId = some r.id

def Answered (E : Env) : (Nat → Option Response) → Nat → List (Nat × Request × Response) → Prop
  | _, _, [] => True
  | first, k, (n, q, r) :: rest =>
    RequestShape F n (first n) q ∧ E.client k q = some r ∧ Answered E (fun _ => some r) (k + 1) rest

def chainFrom (first : Nat → Option Response) : List (Nat × Request × Response) →
    Nat → Option Response
  | [] => first
  | e :: rest => chainFrom (fun _ => some e.2.2) rest

theorem chainFrom_of_getLast {first : Nat → Option Response} {rs : List (Nat × Request × Response)}
    {e : Nat × Request × Response} (h : rs.getLast? = some e) :
    chainFrom first rs = fun _ => some e.2.2 := by
  induction rs generalizing first with
  | nil => simp at h
  | cons a rest ih =>
    cases rest with
    | nil => simp at h; subst h; rfl
    | cons b rest => exact @ih (fun _ => some a.2.2) (by simpa using h)

theorem answered_append {E : Env} (first : Nat → Option Response) (k : Nat)
    (rs rs' : List (Nat × Request × Response)) :
    Answered F E first k (rs ++ rs') ↔
      Answered F E first k rs ∧ Answered F E (chainFrom first rs) (k + rs.length) rs' := by
  induction rs generalizing first k with
  | nil => simp [Answered, chainFrom]
  | cons a rest ih =>
    obtain ⟨n, q, r⟩ := a
    simp only [List.cons_append, Answered, List.append_eq, ih, chainFrom, List.length_cons,
      and_assoc, Nat.add_assoc, Nat.add_comm 1]

end

def callbackEvent (cb : Option Callback) (n : Nat) : List Event :=
  if cb.isSome then [.callback n] else []

def sentEvents (cb : Option Callback) (rs : List (Nat × Request × Response)) : List Event :=
  rs.flatMap fun e => .request e.1 e.2.1 e.2.2 :: callbackEvent cb e.1

/-- A callback that returns normally, leaves the nodes and the service alone, and sends no request
of its own. -/
def Quiet : Option Callback → Prop
  | none => True
  | some f => ∀ n w, ∃ w', f n w = .ok () w' ∧ w'.store = w.store ∧ w'.calls = w.calls ∧
      ∃ evs, w'.log = w.log ++ evs ∧ dispatchEvents evs = []

def World.record (w : World) (e : Event) : World := { w with log := w.log ++ [e] }

def NodeState.answered (s : NodeState) (r : Response) (t0 t1 t2 : Nat) : NodeState :=
  { s with response := some r, responseContent := r.outputText, timeTaken := .float ((t1 : Int) - t0),
           lastAnswered := .float t2 }

def World.answered (E : Env) (w : World) (n : Nat) (req : Request) (r : Response) : World :=
  { w with store := Function.update w.store n
             ((w.store n).answered r (E.clock w.reads) (E.clock (w.reads + 1)) (E.clock (w.reads + 2))),
           reads := w.reads + 3, calls := w.calls + 1, log := w.log ++ [.request n req r] }

section

variable (E : Env) (F : Forest)

theorem requestFor_run {n : Nat} {w : World} (h : Readable F w.store n) :
    ∃ req, (∀ w', w'.store = w.store → requestFor F n w' = .ok req w') ∧
      RequestShape F n (parentResponse F w.store n) req := by
  cases hp : (F.get n).parent with
  | none =>
    exact ⟨⟨(F.get n).model, ⟨7, 1⟩, (F.get n).question, none, none⟩,
      fun w' _ => by simp [requestFor, hp], by simp [RequestShape, hp]⟩
  | some p =>
    cases hi : (F.get p).isInstruction
    · obtain ⟨r, hr⟩ := Option.isSome_iff_exists.1 (h p hp hi)
      exact ⟨⟨(F.get n).model, ⟨7, 1⟩, (F.get n).question, none, some r.id⟩,
        fun w' hw => by simp [requestFor, hp, hi, hw, hr],
        by simp [RequestShape, hp, hi, parentResponse, hr]⟩
    · exact ⟨⟨(F.get n).model, ⟨7, 1⟩, (F.get n).question, some (F.get p).question, none⟩,
        fun w' _ => by simp [requestFor, hp, hi], by simp [RequestShape, hp, hi]⟩

theorem answerNode_run {cb : Option Callback} {n : Nat} {w : World} {req : Request} {r : Response}
    (hreq : ∀ w', w'.store = w.store → requestFor F n w' = .ok req w')
    (hr : E.client w.calls req = some r) :
    answerNode E F cb n w = match cb with
      | none => .ok r (w.answered E n req r)
      | some f =>
        match f n ((w.answered E n req r).record (.callback n)) with
        | .ok _ w' => .ok r w'
        | .error e w' => .error e w' := by
  cases cb <;>
    simp [answerNode, hreq, create_run_of_client E { w with reads := w.reads + 1 } hr,
      World.answered, World.record, NodeState.answered, Function.update_idem, Nat.add_assoc]
  split <;> simp [*]

theorem requestFor_of_not_readable {n : Nat} {w : World} (h : ¬ Readable F w.store n) :
    requestFor F n w = .error .attributeError w := by
  simp only [Readable, not_forall] at h
  obtain ⟨p, hp, hi, hr⟩ := h
  cases hres : (w.store p).response with
  | none => simp [requestFor, hp, hi, hres]
  | some r => simp [hres] at hr

theorem answerNode_eq_ok {f : Callback} {n : Nat} {w w' : World} {r : Response}
    (h : answerNode E F (some f) n w = .ok r w') :
    ∃ req, E.client w.calls req = some r ∧
      f n ((w.answered E n req r).record (.callback n)) = .ok () w' := by
  by_cases hread : Readable F w.store n
  · obtain ⟨req, hreq, -⟩ := requestFor_run F hread
    cases hr : E.client w.calls req with
    | none => simp [answerNode, hreq, create, hr] at h
    | some r' =>
      rw [answerNode_run E F hreq hr] at h
      dsimp only at h
      split at h
      · cases h; exact ⟨req, hr, ‹_›⟩
      · cases h
  · simp [answerNode, requestFor_of_not_readable F (w := { w with reads := w.reads + 1 }) hread] at h

theorem answerNode_quiet {cb : Option Callback} (hcb : Quiet cb) {n : Nat} {w : World}
    {req : Request} {r : Response}
    (hreq : ∀ w', w'.store = w.store → requestFor F n w' = .ok req w')
    (hr : E.client w.calls req = some r) :
    ∃ w', answerNode E F cb n w = .ok r w' ∧ w'.store = (w.answered E n req r).store ∧
      w'.calls = w.calls + 1 ∧
      ∃ evs, w'.log = w.log ++ evs ∧ dispatchEvents evs = .request n req r :: callbackEvent cb n := by
  rw [answerNode_run E F hreq hr]
  cases cb with
  | none => exact ⟨_, rfl, rfl, rfl, _, rfl, by simp [callbackEvent, Event.isDispatch]⟩
  | some f =>
    obtain ⟨w', hf, hs, hc, evs, hl, he⟩ := hcb n ((w.answered E n req r).record (.callback n))
    refine ⟨w', by simp only [hf], hs, hc, [.request n req r, .callback n] ++ evs,
      by simp [hl, World.answered, World.record], ?_⟩
    simp [he, callbackEvent, Event.isDispatch]

theorem dispatch_snoc (cb : Option Callback) (l : List Nat) (p x : Nat) :
    dispatch E F cb (l ++ [p]) x = dispatch E F cb l p >>= fun _ => answerNode E F cb x := by
  simp [dispatch, List.forM_append, Functor.discard, map_const, bind_map_left]

theorem discard_dispatch (cb : Option Callback) (above : List Nat) (x : Nat) :
    discard (dispatch E F cb above x) = (above ++ [x]).forM fun n => discard (answerNode E F cb n) := by
  simp [dispatch, List.forM_append, Functor.discard, map_const, bind_map_left]

end

/-- Every node answered at a nonnegative time has a response attribute. -/
def Recorded (st : Nat → NodeState) : Prop :=
  ∀ n, 0 ≤ (st n).lastAnswered.val → (st n).response.isSome

section

variable (E : Env) (F : Forest) {cb : Option Callback}

theorem answerNode_step (hans : E.Answers) (hcb : Quiet cb) {w : World} {x : Nat}
    (h : Readable F w.store x) :
    ∃ req r w', answerNode E F cb x w = .ok r w' ∧
      RequestShape F x (parentResponse F w.store x) req ∧ E.client w.calls req = some r ∧
      w'.calls = w.calls + 1 ∧ (w'.store x).response = some r ∧
      ∃ evs, w'.log = w.log ++ evs ∧ dispatchEvents evs = .request x req r :: callbackEvent cb x := by
  obtain ⟨req, hreq, hshape⟩ := requestFor_run F h
  obtain ⟨r, hr⟩ := Option.isSome_iff_exists.1 (hans w.calls req)
  obtain ⟨w', hrun, hst, hc, hl⟩ := answerNode_quiet E F hcb hreq hr
  exact ⟨req, r, w', hrun, hshape, hr, hc, by simp [hst, World.answered, NodeState.answered], hl⟩

structure Sent (cb : Option Callback) (w w' : World) (seg : List Nat)
    (rs : List (Nat × Request × Response)) (r : Response) : Prop where
  nodes : rs.map Prod.fst = seg
  answered : Answered F E (parentResponse F w.store) w.calls rs
  last : rs.getLast?.map (·.2.2) = some r
  calls : w'.calls = w.calls + rs.length
  events : ∃ evs, w'.log = w.log ++ evs ∧ dispatchEvents evs = sentEvents cb rs

theorem dispatch_settled (hans : E.Answers) (hcb : Quiet cb) {t : Int} {w : World} {x : Nat}
    (hread : Readable F w.store x) (hnil : staleAncestors F w.store t (F.path x) = []) :
    ∃ r w' rs, dispatch E F cb (staleAncestors F w.store t (F.path x)) x w = .ok r w' ∧
      Sent E F cb w w' (staleSegment F w.store t x) rs r ∧ (w'.store x).response = some r := by
  obtain ⟨req, r, w', hrun, hshape, hr, hc, hx, evs, hl, he⟩ := answerNode_step E F hans hcb hread
  refine ⟨r, w', [(x, req, r)], by simpa [hnil, dispatch] using hrun,
    ⟨?_, ⟨hshape, hr, trivial⟩, rfl, hc, evs, hl, by simpa [sentEvents] using he⟩, hx⟩
  rw [← staleAncestors_append, hnil]; rfl

theorem dispatch_staleAncestors (hans : E.Answers) (hcb : Quiet cb) {t : Int} (ht : 0 ≤ t)
    {w : World} (hrec : Recorded w.store) (x : Nat) :
    ∃ r w' rs, dispatch E F cb (staleAncestors F w.store t (F.path x)) x w = .ok r w' ∧
      Sent E F cb w w' (staleSegment F w.store t x) rs r ∧ (w'.store x).response = some r := by
  induction x using F.induction with
  | root x hx =>
    exact dispatch_settled E F hans hcb (fun p hp => by simp [hx] at hp)
      (by simp [F.path_of_parent_none hx, staleAncestors, hx])
  | child x p hx ih =>
    by_cases hs : (w.store p).lastAnswered.val < t ∧ (F.get p).isInstruction = false
    · obtain ⟨rp, wp, rsp, hrun, ⟨hseg, hans', hlast, hc, evs, hl, he⟩, hpx⟩ := ih
      obtain ⟨e, he', hre⟩ : ∃ e, rsp.getLast? = some e ∧ e.2.2 = rp := by
        simpa using hlast
      obtain ⟨req, r, w', hrun', hshape, hr, hc', hx', evs', hl', he''⟩ :=
        answerNode_step E F hans hcb (w := wp) (x := x)
          (fun q hq _ => by simp [hx] at hq; subst hq; simp [hpx])
      refine ⟨r, w', rsp ++ [(x, req, r)], ?_, ⟨?_, ?_, by simp, by simp [hc', hc]; omega,
        evs ++ evs', by simp [hl', hl], by simp [he, he'', sentEvents]⟩, hx'⟩
      · rw [F.path_of_parent_some hx, staleAncestors.eq_2]
        simp only [hx, hs, and_self, if_true, dispatch_snoc, bind_run, hrun, hrun']
      · rw [List.map_append, hseg, ← staleAncestors_append, ← staleAncestors_append,
          F.path_of_parent_some hx, staleAncestors.eq_2]
        simp [hx, hs]
      · rw [answered_append, chainFrom_of_getLast he']
        refine ⟨hans', ?_, by simpa [hc] using hr, trivial⟩
        simpa [parentResponse, hx, hpx, hre] using hshape
    · refine dispatch_settled E F hans hcb (fun q hq hi => ?_) ?_
      · obtain rfl : p = q := by simpa [hx] using hq
        have : t ≤ (w.store p).lastAnswered.val := by
          by_contra h; exact hs ⟨by omega, hi⟩
        exact hrec p (by omega)
      · rw [F.path_of_parent_some hx, staleAncestors.eq_2]
        simp [hx, hs]

end

/-- What `callnode(x, t)` does: with `t` fixed once (the clock at entry when `t < 0`), it requests
exactly the stale segment `n_j, …, n_k = x` of `x`'s path, root first and each node once, where
only `x` may be an instruction node; each request has its node's model and question and chains to
its parent (the parent's question as instructions, or the response it got, earlier in this call for
all but `n_j`); no missing response is read, and each request is followed by exactly one
callback. -/
def DispatchesStaleSegment (E : Env) (F : Forest) (x : Nat) (t : Int) (cb : Option Callback)
    (w : World) : Prop :=
  let seg := staleSegment F w.store (if t < 0 then (E.clock w.reads : Int) else t) x
  seg.Nodup ∧ seg.getLast? = some x ∧ (∀ n ∈ seg, (F.get n).isInstruction = true → n = x) ∧
    ∃ r w' rs, callnode E F x t cb w = .ok r w' ∧ Sent E F cb w w' seg rs r

theorem callnode_requests_stale_segment (E : Env) (F : Forest) (x : Nat) (t : Int)
    (cb : Option Callback) (w : World) (hrec : Recorded w.store) (hans : E.Answers)
    (hcb : Quiet cb) : DispatchesStaleSegment E F x t cb w := by
  have ht : (resolved E t w).1 = if t < 0 then (E.clock w.reads : Int) else t := by
    unfold resolved; split <;> rfl
  obtain ⟨r, w', rs, hrun, hsent, -⟩ :=
    dispatch_staleAncestors E F hans hcb (resolved_nonneg E t w) (w := (resolved E t w).2)
      (by simpa using hrec) x
  rw [resolved_store, ht] at hrun hsent
  refine ⟨(staleSegment_spec F _ _ x).1, (staleSegment_spec F _ _ x).2.1,
    (staleSegment_spec F _ _ x).2.2, r, w', rs, ?_, ?_⟩
  · rw [callnode_eq_dispatch, ht]; exact hrun
  · obtain ⟨h1, h2, h3, h4, h5⟩ := hsent
    exact ⟨h1, by simpa using h2, h3, by simpa using h4, by simpa using h5⟩


namespace Sample

def env : Env :=
  ⟨fun k => k % Nat.pow 2 53, fun _ => Nat.mod_lt _ (Nat.two_pow_pos 53),
    fun k _ => some ⟨toString k, "A"⟩, fun _ _ => true, fun _ => true⟩

def world : World := ⟨fun _ => NodeState.init, fun _ => none, [], 0, 0, 0, []⟩

def forest : Forest :=
  (Forest.empty.push (NodeInfo.new "root" "" "Answer this." none true) Forest.none_parent_lt).push
    (NodeInfo.new "oneminute" "One minute answer" "Now in one minute." (some 0))
      (Forest.some_parent_lt (by decide))

def stale : Forest :=
  ((Forest.empty.push (NodeInfo.new "root" "Root" "Q0") Forest.none_parent_lt).push
    (NodeInfo.new "middle" "Middle" "Q1" (some 0)) (Forest.some_parent_lt (by decide))).push
    (NodeInfo.new "leaf" "Leaf" "Q2" (some 1)) (Forest.some_parent_lt (by decide))

def staleWorld : World :=
  { world with store := fun n =>
      if n = 0 then ⟨"R0", some ⟨"r0", "R0"⟩, .float 20, .float 3⟩
      else if n = 1 then ⟨"R1", some ⟨"r1", "R1"⟩, .float 5, .float 2⟩
      else NodeState.init }

def saveText : Callback := fun n => do
  let st ← getStore
  writeFile env ("node" ++ toString n ++ ".md") (st n).responseContent

end Sample

theorem callnode_requests_stale_segment_sample :
    Recorded Sample.staleWorld.store ∧ Sample.env.Answers ∧ Quiet (some Sample.saveText) ∧
      staleSegment Sample.stale Sample.staleWorld.store 10 2 = [1, 2] ∧
      DispatchesStaleSegment Sample.env Sample.stale 2 10 (some Sample.saveText)
        Sample.staleWorld :=
  have hrec : Recorded Sample.staleWorld.store := fun n h => by
    by_cases h0 : n = 0 <;> by_cases h1 : n = 1 <;>
      simp_all [Sample.staleWorld, NodeState.init, PyNum.val]
  have hans : Sample.env.Answers := fun _ _ => rfl
  have hcb : Quiet (some Sample.saveText) := fun n w =>
    ⟨_, rfl, rfl, rfl, [.write _ _], rfl, rfl⟩
  ⟨hrec, hans, hcb, by decide, callnode_requests_stale_segment Sample.env Sample.stale 2 10
    (some Sample.saveText) Sample.staleWorld hrec hans hcb⟩

end AnswerChain.Core
