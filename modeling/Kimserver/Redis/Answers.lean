import Kimserver.Redis.Links

/-!
# Every accepted command is answered once

A call of `send_to` that returned true is called back, waits in the list of a connection, or was
given to hiredis, which owes its callback; and it is one of these only. This holds in every state
of a run, as long as the run has a meaning. It loses its meaning where a list is cleared while a
loop runs over it, and where a connection is used that was deleted.

## Main definitions

* `RedisMgr.Answered`: where the accepted calls are
* `RedisMgr.Hazard`: the events after which a run has no meaning

## Main results

* `RedisMgr.Sound.walk`: a loop over the waiting commands loses none of them
* `RedisMgr.Settled.step`, `RedisMgr.Settled.step_eq_none`: what an event keeps, and when it has
  no meaning
* `RedisMgr.Settled.answered`: the account says that every accepted call is answered once
-/

namespace Kimserver

namespace RedisMgr

variable {s s' : RedisMgr}

/-- The calls that wait in the list of a connection. -/
def waiting (s : RedisMgr) : List ℕ := s.objs.flatMap fun obj => obj.waitTasks.map RdsTask.id

/-- The calls that hiredis accepted and did not call back. -/
def pending (s : RedisMgr) : List ℕ := s.ctxs.flatMap fun ctx => ctx.pending.map RdsTask.id

/-- Every call that returned true was called back, waits, or is owed a callback by hiredis, and
all these are different calls. The commands of a list leave it in the order in which they came,
and they wait only for a connect callback that is still to come. -/
structure Answered (s : RedisMgr) : Prop where
  once : (s.called ++ (s.waiting ++ s.pending)).Perm s.accepted
  distinct : s.accepted.Nodup
  inOrder : ∀ (c : ℕ) (obj : RdsConnection), s.objs[c]? = some obj →
    obj.queued = obj.settled ++ obj.waitTasks.map RdsTask.id
  waits : ∀ (c : ℕ) (obj : RdsConnection), s.objs[c]? = some obj → obj.waitTasks ≠ [] →
    ∃ (k : ℕ) (ctx : RedisCtx), s.ctxs[k]? = some ctx ∧ ctx.data = c ∧ ctx.phase = .connecting

/-- When no connection is being set up and hiredis owes no callback, exactly the calls that
returned true were called back, each once. -/
theorem Answered.complete (h : Answered s)
    (hctxs : ∀ (k : ℕ) (ctx : RedisCtx), s.ctxs[k]? = some ctx →
      ctx.phase ≠ .connecting ∧ ctx.pending = []) : s.called.Perm s.accepted := by
  have hwaiting : s.waiting = [] := by
    refine List.flatMap_eq_nil_iff.mpr fun obj hobj => ?_
    obtain ⟨c, hc⟩ := List.mem_iff_getElem?.mp hobj
    by_contra hne
    obtain ⟨k, ctx, hctx, -, hphase⟩ := h.waits c obj hc fun hnil => hne (by rw [hnil]; rfl)
    exact (hctxs k ctx hctx).1 hphase
  have hpending : s.pending = [] := by
    refine List.flatMap_eq_nil_iff.mpr fun ctx hctx => ?_
    obtain ⟨k, hk⟩ := List.mem_iff_getElem?.mp hctx
    rw [(hctxs k ctx hk).2]
    rfl
  have honce := h.once
  rwa [hwaiting, hpending, List.append_nil, List.append_nil] at honce

/-! ## The account -/

/-- The calls of `accepted` were called back, wait, or are owed a callback by hiredis, but for
those of `between`, which a loop holds. -/
structure Accounted (accepted between : List ℕ) (s : RedisMgr) : Prop where
  once : (s.called ++ (between ++ (s.waiting ++ s.pending))).Perm accepted
  inOrder : ∀ (c : ℕ) (obj : RdsConnection), s.objs[c]? = some obj →
    obj.queued = obj.settled ++ obj.waitTasks.map RdsTask.id

variable {accepted between : List ℕ}

theorem Accounted.of_fields (h : Accounted accepted between s) (hobjs : s'.objs = s.objs)
    (hctxs : s'.ctxs = s.ctxs) (hcalled : s'.called = s.called) :
    Accounted accepted between s' where
  once := by
    unfold waiting pending
    rw [hobjs, hctxs, hcalled]
    exact h.once
  inOrder := hobjs ▸ h.inOrder

/-- The account after the waiting and the pending calls were moved. -/
theorem Accounted.of_perm {between' : List ℕ} (h : Accounted accepted between s)
    (hcalled : s'.called = s.called)
    (hperm : (between' ++ (s'.waiting ++ s'.pending)).Perm
      (between ++ (s.waiting ++ s.pending)))
    (inOrder : ∀ (c : ℕ) (obj : RdsConnection), s'.objs[c]? = some obj →
      obj.queued = obj.settled ++ obj.waitTasks.map RdsTask.id) :
    Accounted accepted between' s' :=
  ⟨hcalled ▸ (List.Perm.append_left _ hperm).trans h.once, inOrder⟩

/-- Writing members of a connection other than its list. -/
theorem Accounted.setObj (h : Accounted accepted between s) {c : ℕ}
    {f : RdsConnection → RdsConnection}
    (hf : ∀ obj, s.objs[c]? = some obj → (f obj).waitTasks = obj.waitTasks ∧
      (f obj).queued = obj.queued ∧ (f obj).settled = obj.settled) :
    Accounted accepted between (s.setObj c f) := by
  refine h.of_perm rfl (List.Perm.append_left _ (List.Perm.append_right _ ?_)) ?_
  · exact Heap.flatMap_modify_same fun obj hobj => by rw [(hf obj hobj).1]
  · intro i obj' hobj'
    rcases Heap.getElem?_modify_cases hobj' with ⟨rfl, obj, hobj, rfl⟩ | ⟨-, hold⟩
    · obtain ⟨hwait, hqueued, hsettled⟩ := hf obj hobj
      rw [hwait, hqueued, hsettled]
      exact h.inOrder c obj hobj
    · exact h.inOrder i obj' hold

/-- Writing members of a context other than its pending commands. -/
theorem Accounted.setCtx (h : Accounted accepted between s) (k : ℕ) {f : RedisCtx → RedisCtx}
    (hf : ∀ ctx, (f ctx).pending = ctx.pending) : Accounted accepted between (s.setCtx k f) := by
  refine h.of_perm rfl (List.Perm.append_left _ (List.Perm.append_left _ ?_)) h.inOrder
  exact Heap.flatMap_modify_same fun ctx _ => by rw [hf ctx]

theorem Accounted.setPhase (h : Accounted accepted between s) (k : ℕ) (phase : CtxPhase) :
    Accounted accepted between (s.setPhase k phase) :=
  h.setCtx k fun _ => rfl

/-- The head of a list that a loop takes. -/
theorem Accounted.passed (h : Accounted accepted between s) {c : ℕ} {obj : RdsConnection}
    {task : RdsTask} {tasks : List RdsTask} (hobj : s.objs[c]? = some obj)
    (htasks : obj.waitTasks = task :: tasks) :
    Accounted accepted (between ++ [task.id]) (s.passed c task tasks) := by
  refine h.of_perm rfl ?_ ?_
  · rw [List.append_assoc]
    refine List.Perm.append_left _ ?_
    rw [← List.append_assoc]
    refine List.Perm.append_right _ (Heap.flatMap_modify_remove hobj ?_)
    rw [htasks]
    rfl
  · intro i obj' hobj'
    rcases Heap.getElem?_modify_cases hobj' with ⟨rfl, o, ho, rfl⟩ | ⟨-, hold⟩
    · obtain rfl := Option.some.inj (hobj.symm.trans ho)
      have horder := h.inOrder c obj hobj
      rw [htasks] at horder
      rw [horder, List.append_assoc]
      rfl
    · exact h.inOrder i obj' hold

/-- A command that waits or that hiredis accepted. -/
theorem Accounted.conn_sent {task : RdsTask} (h : Accounted accepted (between ++ [task.id]) s)
    (hlinked : Linked s) {c : ℕ} (hsent : ConnSent s c task true s') :
    Accounted accepted between s' := by
  cases hsent with
  | waits obj hobj _ _ =>
    refine h.of_perm rfl ?_ ?_
    · rw [List.append_assoc]
      refine List.Perm.append_left _ ?_
      rw [← List.append_assoc]
      refine List.Perm.append_right _ ((Heap.flatMap_modify_add hobj (m := [task.id]) ?_).trans
        List.perm_append_comm)
      exact List.map_append
    · intro i obj' hobj'
      rcases Heap.getElem?_modify_cases hobj' with ⟨rfl, o, ho, rfl⟩ | ⟨-, hold⟩
      · rw [h.inOrder c o ho, List.map_append, List.append_assoc]
        rfl
      · exact h.inOrder i obj' hold
  | sent obj k hobj hstate hctx =>
    obtain ⟨-, k', ctx, hk, hget, -⟩ := hlinked.active c obj hobj (by rw [hstate]; decide)
    obtain rfl : k = k' := Option.some.inj (hctx.symm.trans hk)
    refine h.of_perm rfl ?_ h.inOrder
    rw [List.append_assoc]
    refine List.Perm.append_left _ ?_
    have hadd := Heap.flatMap_modify_add hget (m := [task.id])
      (f := fun ctx => { ctx with pending := ctx.pending ++ [task] })
      (g := fun ctx => ctx.pending.map RdsTask.id) List.map_append
    have hmoved := (List.Perm.append_left s.waiting hadd).trans
      (List.Perm.of_eq (List.append_assoc ..).symm)
    exact hmoved.trans List.perm_append_comm

theorem Accounted.picked (h : Accounted accepted between s) {key : Bytes} {s₁ : RedisMgr} {c : ℕ}
    {obj : RdsConnection} (hpick : Picked s key s₁ c obj) : Accounted accepted between s₁ := by
  cases hpick with
  | closed _ _ _ _ _ _ => exact h
  | fresh _ =>
    refine h.of_perm rfl (List.Perm.append_left _ (List.Perm.append_right _ ?_)) ?_
    · refine List.Perm.of_eq ?_
      unfold waiting
      rw [List.flatMap_append]
      exact List.append_nil _
    · intro i obj hobj
      rcases Heap.getElem?_snoc_cases hobj with hold | ⟨-, rfl⟩
      · exact h.inOrder i obj hold
      · rfl

/-- No command waits in a connection that is opened, or deleted because it cannot be. -/
theorem Accounted.got (h : Accounted accepted between s) (hlinked : Linked s) {node : Bytes}
    {r : Option ℕ} (hgot : Got s node r s') : Accounted accepted between s' := by
  cases hgot with
  | unknown _ => exact h
  | active _ _ _ _ _ _ _ _ _ => exact h
  | failed host port s₁ c obj _ hpick _ hwalk =>
    obtain ⟨hlinked', hstate, -, -⟩ := hlinked.picked hpick
    refine (h.picked hpick).setObj fun obj' hobj' => ?_
    obtain rfl := Option.some.inj (hpick.hobj.symm.trans hobj')
    have hempty := hlinked'.waits c obj hpick.hobj (by rw [hstate]; decide) hwalk
    exact ⟨hempty.symm, rfl, rfl⟩
  | opened host port s₁ c obj _ _ hpick _ hwalk =>
    obtain ⟨hlinked', hstate, -, -⟩ := hlinked.picked hpick
    have hset : Accounted accepted between (s₁.setObj c fun obj => { obj.clear with
        state := .connecting, ctx := some s₁.ctxs.length, addr := some (host, port) }) := by
      refine (h.picked hpick).setObj fun obj' hobj' => ?_
      obtain rfl := Option.some.inj (hpick.hobj.symm.trans hobj')
      have hempty := hlinked'.waits c obj hpick.hobj (by rw [hstate]; decide) hwalk
      exact ⟨hempty.symm, rfl, rfl⟩
    refine hset.of_perm rfl (List.Perm.append_left _ (List.Perm.append_left _ ?_)) hset.inOrder
    refine List.Perm.of_eq ?_
    unfold pending
    exact List.flatMap_append.trans (List.append_nil _)

/-- Calls are numbered in the order in which they are made. -/
structure Numbered (s : RedisMgr) : Prop where
  distinct : s.accepted.Nodup
  fresh : ∀ id ∈ s.accepted, id < s.nextSend

/-- The members that count calls are the same. -/
structure SameCalls (s s' : RedisMgr) : Prop where
  nextSend : s'.nextSend = s.nextSend
  accepted : s'.accepted = s.accepted
  called : s'.called = s.called

theorem SameCalls.of_got {node : Bytes} {r : Option ℕ} (hgot : Got s node r s') :
    SameCalls s s' := by
  have hpicked : ∀ {key s₁ c obj}, Picked s key s₁ c obj → SameCalls s s₁ := by
    intro key s₁ c obj hpick
    cases hpick <;> exact ⟨rfl, rfl, rfl⟩
  cases hgot with
  | unknown _ => exact ⟨rfl, rfl, rfl⟩
  | active _ _ _ _ _ _ _ _ _ => exact ⟨rfl, rfl, rfl⟩
  | failed _ _ s₁ c obj _ hpick _ _ =>
    obtain ⟨hnext, haccepted, hcalled⟩ := hpicked hpick
    exact ⟨hnext, haccepted, hcalled⟩
  | opened _ _ s₁ c obj _ _ hpick _ _ =>
    obtain ⟨hnext, haccepted, hcalled⟩ := hpicked hpick
    exact ⟨hnext, haccepted, hcalled⟩

theorem SameCalls.of_connSent {c : ℕ} {task : RdsTask} {b : Bool}
    (hsent : ConnSent s c task b s') : SameCalls s s' := by
  cases hsent <;> exact ⟨rfl, rfl, rfl⟩

/-- The account of the calls is right, and the links hold. -/
structure Sound (s : RedisMgr) : Prop where
  linked : Linked s
  accounted : Accounted s.accepted [] s
  numbered : Numbered s

/-- A call that returns true has its place in the account, and one that returns false has none. -/
theorem Sound.sent (h : Sound s) {call : RdsSend} {b : Bool} (hsent : Sent s call b s') :
    Sound s' := by
  have hlinked := h.linked.sent hsent
  have hcounted : Linked { s with nextSend := s.nextSend + 1 } := h.linked.of_fields rfl rfl rfl
  have hlt : ∀ id ∈ s.accepted, id < s.nextSend + 1 := fun id hid =>
    Nat.lt_succ_of_lt (h.numbered.fresh id hid)
  have hsame : Accounted s.accepted [] { s with nextSend := s.nextSend + 1 } :=
    h.accounted.of_fields rfl rfl rfl
  cases hsent with
  | invalid => exact ⟨hlinked, hsame, h.numbered.distinct, hlt⟩
  | refused node s' hgot =>
    obtain ⟨hnext, haccepted, -⟩ := SameCalls.of_got hgot
    refine ⟨hlinked, ?_, ?_, ?_⟩
    · rw [haccepted]
      exact hsame.got hcounted hgot
    · rw [haccepted]
      exact h.numbered.distinct
    · rw [haccepted, hnext]
      exact hlt
  | answered node fn c b s₁ s₂ hgot hconn =>
    obtain ⟨hnext, haccepted, -⟩ := SameCalls.of_got hgot
    obtain ⟨hnext', haccepted', -⟩ := SameCalls.of_connSent hconn
    have hacc : s₂.accepted = s.accepted := haccepted'.trans haccepted
    have hnum : s₂.nextSend = s.nextSend + 1 := hnext'.trans hnext
    cases b with
    | false =>
      cases hconn
      refine ⟨hlinked, ?_, ?_, ?_⟩
      · rw [haccepted]
        exact (hsame.got hcounted hgot).of_fields rfl rfl rfl
      · rw [haccepted]
        exact h.numbered.distinct
      · rw [haccepted, hnext]
        exact hlt
    | true =>
      have hnew : s.nextSend ∉ s.accepted := fun hmem =>
        Nat.lt_irrefl _ (h.numbered.fresh _ hmem)
      -- The call is held by `send_to` until its command waits or is accepted.
      have hheld : Accounted (s.accepted ++ [s.nextSend]) ([] ++ [s.nextSend])
          { s with nextSend := s.nextSend + 1 } := by
        refine ⟨?_, h.accounted.inOrder⟩
        have honce : (s.called ++ (s.waiting ++ s.pending)).Perm s.accepted := h.accounted.once
        have hswap : ([s.nextSend] ++ (s.waiting ++ s.pending)).Perm
          ((s.waiting ++ s.pending) ++ [s.nextSend]) := List.perm_append_comm
        refine ((List.Perm.append_left s.called hswap).trans ?_).trans
          (List.Perm.append_right [s.nextSend] honce)
        exact List.Perm.of_eq (List.append_assoc ..).symm
      have hnoted : Accounted (s.accepted ++ [s.nextSend]) ([] ++ [s.nextSend])
          { s₁ with got := s₁.got ++ [(node, (s₁.objs[c]?).bind RdsConnection.addr)] } :=
        (hheld.got hcounted hgot).of_fields rfl rfl rfl
      have hnotedLinked : Linked
          { s₁ with got := s₁.got ++ [(node, (s₁.objs[c]?).bind RdsConnection.addr)] } :=
        (hcounted.got hgot).of_fields rfl rfl rfl
      refine ⟨hlinked, ?_, ?_, ?_⟩
      · rw [if_pos rfl, hacc]
        have hplaced : Accounted (s.accepted ++ [s.nextSend]) [] s₂ :=
          Accounted.conn_sent hnoted hnotedLinked hconn
        exact hplaced.of_fields rfl rfl rfl
      · rw [if_pos rfl, hacc]
        exact List.concat_eq_append ▸ h.numbered.distinct.concat hnew
      · rw [if_pos rfl, hacc, hnum]
        intro id hid
        rcases List.mem_append.mp hid with hid | hid
        · exact hlt id hid
        · rw [List.mem_singleton.mp hid]
          exact Nat.lt_succ_self _

theorem Sound.runSends (h : Sound s) {calls : List RdsSend} (hrun : s.runSends calls = some s') :
    Sound s' := by
  induction calls generalizing s with
  | nil =>
    cases hrun
    exact h
  | cons call calls ih =>
    unfold RedisMgr.runSends at hrun
    split at hrun
    · cases hrun
    · next b s₁ hsend => exact ih (h.sent (sent_of_sendTo hsend)) hrun

/-! ## The loops -/

/-- The account is right but for a command that is about to be sent or called back. -/
structure Holding (id : ℕ) (s : RedisMgr) : Prop where
  linked : Linked s
  accounted : Accounted s.accepted ([] ++ [id]) s
  numbered : Numbered s

theorem Holding.conn_sent {task : RdsTask} (h : Holding task.id s) {c : ℕ}
    (hsent : ConnSent s c task true s') : Sound s' ∧ Framed s s' := by
  obtain ⟨hnext, haccepted, -⟩ := SameCalls.of_connSent hsent
  refine ⟨⟨h.linked.conn_sent hsent, ?_, ?_, ?_⟩, .of_connSent hsent⟩
  · rw [haccepted]
    exact Accounted.conn_sent h.accounted h.linked hsent
  · rw [haccepted]
    exact h.numbered.distinct
  · rw [haccepted, hnext]
    exact h.numbered.fresh

theorem Holding.invoke {task : RdsTask} (h : Holding task.id s) {reactions : ℕ → List RdsSend}
    (hrun : s.invoke task reactions = some s') : Sound s' ∧ Framed s s' := by
  have hcalled : Sound { s with called := s.called ++ [task.id] } := by
    refine ⟨h.linked.of_fields rfl rfl rfl, ⟨?_, h.accounted.inOrder⟩, h.numbered.distinct,
      h.numbered.fresh⟩
    exact (List.Perm.of_eq (List.append_assoc ..)).trans h.accounted.once
  have hframed : Framed s { s with called := s.called ++ [task.id] } := .of_objs rfl rfl
  exact ⟨hcalled.runSends hrun, hframed.trans (hcalled.linked.runSends hrun).2⟩

/-- The head of a list that is being walked is held by the loop. -/
theorem Sound.passed (h : Sound s) {c : ℕ} {obj : RdsConnection} {task : RdsTask}
    {tasks : List RdsTask} (hobj : s.objs[c]? = some obj) (hwalk : obj.walking = true)
    (htasks : obj.waitTasks = task :: tasks) : Holding task.id (s.passed c task tasks) := by
  refine ⟨h.linked.setObj fun obj' hobj' => ?_, h.accounted.passed hobj htasks,
    h.numbered.distinct, h.numbered.fresh⟩
  obtain rfl := Option.some.inj (hobj.symm.trans hobj')
  refine ⟨rfl, rfl, fun _ => rfl, id, fun _ hidle => ?_⟩
  rw [show obj.walking = false from hidle] at hwalk
  cases hwalk

/-- What a loop over the list of the connection `c` leaves: its list is empty, and the other
connections that are being walked are the same. -/
structure Walked (s : RedisMgr) (c : ℕ) (obj : RdsConnection) (s' : RedisMgr) : Prop where
  sound : Sound s'
  addrs : s'.addrs = s.addrs
  own : ∃ settled, s'.objs[c]? = some { obj with waitTasks := [], settled := settled }
  others : ∀ (i : ℕ) (o : RdsConnection), i ≠ c → s'.objs[i]? = some o → o.walking = true →
    s.objs[i]? = some o

/-- **A loop over the waiting commands loses none of them.** -/
theorem Sound.walk {c : ℕ} {obj : RdsConnection} {ok : Bool} {accepts : ℕ → Bool}
    {reactions : ℕ → List RdsSend} {tasks : List RdsTask} (h : Sound s)
    (hobj : s.objs[c]? = some obj) (hwalk : obj.walking = true) (htasks : obj.waitTasks = tasks)
    (hrun : walk c ok accepts reactions s tasks = some s') : Walked s c obj s' := by
  induction tasks generalizing s obj with
  | nil =>
    cases hrun
    refine ⟨h, rfl, ⟨obj.settled, ?_⟩, fun _ _ _ ho _ => ho⟩
    rw [hobj, ← htasks]
  | cons task tasks ih =>
    obtain ⟨s₁, hturn, hrest⟩ := walk_cons_cases hrun
    have hheld := h.passed hobj hwalk htasks
    have hstep : Sound s₁ ∧ Framed (s.passed c task tasks) s₁ := by
      rcases hturn with ⟨-, hsent⟩ | hinvoke
      · exact hheld.conn_sent hsent
      · exact hheld.invoke hinvoke
    obtain ⟨hsound, hframed⟩ := hstep
    have hnext := hframed.kept c _ (getElem?_setObj_self hobj _) hwalk
    have hwalked := ih hsound hnext hwalk rfl hrest
    refine ⟨hwalked.sound, hwalked.addrs.trans hframed.addrs, hwalked.own, ?_⟩
    intro i o hi ho how
    have hpassed := hframed.walked i o (hwalked.others i o hi ho how) how
    exact (getElem?_setObj_of_ne (Ne.symm hi) s _).symm.trans hpassed

/-! ## When a loop has a meaning -/

theorem callsView_append (addrs : FiniteMap Bytes (Bytes × ℤ)) (view : Bytes → Entry)
    (calls calls' : List RdsSend) :
    callsView addrs view (calls ++ calls') =
      (callsView addrs view calls).bind fun view => callsView addrs view calls' := by
  induction calls generalizing view with
  | nil => rfl
  | cons call calls ih =>
    simp only [List.cons_append, callsView]
    cases callView addrs view call with
    | none => rfl
    | some view' => exact ih view'

/-- The calls of a loop: those of the callbacks it calls, in the order of the list. -/
def loopCalls (ok : Bool) (accepts : ℕ → Bool) (reactions : ℕ → List RdsSend)
    (tasks : List RdsTask) : List RdsSend :=
  tasks.flatMap fun task => if ok && accepts task.id then [] else reactions task.id

/-- A connected connection gives a command to hiredis. -/
theorem connSendTo_of_connected {c k : ℕ} {obj : RdsConnection} (task : RdsTask)
    (hobj : s.objs[c]? = some obj) (hctx : obj.ctx = some k) (hstate : obj.state = .connected)
    (accepts : Bool) :
    s.connSendTo c task accepts =
      if accepts then
        some (true, s.setCtx k fun ctx => { ctx with pending := ctx.pending ++ [task] })
      else some (false, s) := by
  unfold connSendTo
  simp only [hobj, hctx, hstate]

theorem Linked.passed (h : Linked s) {c : ℕ} {obj : RdsConnection} (hobj : s.objs[c]? = some obj)
    (hwalk : obj.walking = true) (task : RdsTask) (tasks : List RdsTask) :
    Linked (s.passed c task tasks) := by
  refine h.setObj fun obj' hobj' => ?_
  obtain rfl := Option.some.inj (hobj.symm.trans hobj')
  refine ⟨rfl, rfl, fun _ => rfl, id, fun _ hidle => ?_⟩
  rw [show obj.walking = false from hidle] at hwalk
  cases hwalk

/-- Whether a loop has a meaning is decided by what its calls find. -/
theorem Linked.walk_view {c : ℕ} {obj : RdsConnection} {ok : Bool} {accepts : ℕ → Bool}
    {reactions : ℕ → List RdsSend} (h : Linked s) (hobj : s.objs[c]? = some obj)
    (hwalk : obj.walking = true) (hok : ok = true → obj.state = .connected)
    (tasks : List RdsTask) :
    (walk c ok accepts reactions s tasks).map view =
      callsView s.addrs s.view (loopCalls ok accepts reactions tasks) := by
  induction tasks generalizing s obj with
  | nil => rfl
  | cons task tasks ih =>
    have hlinked := h.passed hobj hwalk task tasks
    have hobj' := getElem?_setObj_self hobj fun obj =>
      { obj with waitTasks := tasks, settled := obj.settled ++ [task.id] }
    have hview : (s.passed c task tasks).view = s.view := view_setObj_same fun _ _ => rfl
    have hcalls : callsView s.addrs s.view (loopCalls ok accepts reactions (task :: tasks)) =
        (callsView s.addrs s.view (if ok && accepts task.id then [] else reactions task.id)).bind
          fun view => callsView s.addrs view (loopCalls ok accepts reactions tasks) :=
      callsView_append ..
    rw [hcalls]
    -- A command that is not sent is called back, and the calls of its callback are made.
    have hinvoke : (if ok then (s.passed c task tasks).connSendTo c task (accepts task.id)
          else some (false, s.passed c task tasks)) = some (false, s.passed c task tasks) →
        (walk c ok accepts reactions s (task :: tasks)).map view =
          (callsView s.addrs s.view (reactions task.id)).bind fun view =>
            callsView s.addrs view (loopCalls ok accepts reactions tasks) := by
      intro hrefused
      have hcalled : Linked { s.passed c task tasks with called := s.called ++ [task.id] } :=
        hlinked.of_fields rfl rfl rfl
      have hruns := hcalled.runSends_view (reactions task.id)
      have hstart : view { s.passed c task tasks with called := s.called ++ [task.id] } =
        s.view := hview
      rw [hstart] at hruns
      unfold RedisMgr.walk
      simp only [hrefused]
      have hdef : (s.passed c task tasks).invoke task reactions =
        RedisMgr.runSends { s.passed c task tasks with called := s.called ++ [task.id] }
          (reactions task.id) := rfl
      rw [hdef]
      rw [show callsView s.addrs s.view (reactions task.id) = _ from hruns.symm]
      cases hrun : RedisMgr.runSends { s.passed c task tasks with
          called := s.called ++ [task.id] } (reactions task.id) with
      | none => rfl
      | some s₁ =>
        obtain ⟨hlinked₁, hframed⟩ := hcalled.runSends hrun
        have hnext := hframed.kept c _ hobj' hwalk
        rw [Option.map_some, Option.bind_some]
        exact (ih hlinked₁ hnext hwalk hok).trans (by rw [hframed.addrs]; rfl)
    cases ok with
    | false => exact hinvoke rfl
    | true =>
      have hstate := hok rfl
      obtain ⟨-, k, -, hk, -⟩ := h.active c obj hobj (by rw [hstate]; decide)
      have hsend := connSendTo_of_connected (s := s.passed c task tasks) task hobj' hk hstate
        (accepts task.id)
      cases haccepts : accepts task.id with
      | false =>
        have hrefused : (s.passed c task tasks).connSendTo c task (accepts task.id) =
            some (false, s.passed c task tasks) := by
          rw [hsend, haccepts]
          rfl
        exact hinvoke ((if_pos rfl).trans hrefused)
      | true =>
        rw [haccepts] at hsend
        unfold RedisMgr.walk
        simp only [haccepts, if_true, hsend]
        have hset := hlinked.setCtx k (f := fun ctx =>
          { ctx with pending := ctx.pending ++ [task] }) fun ctx => ⟨rfl, rfl⟩
        refine (ih hset hobj' hwalk hok).trans ?_
        exact congrArg (fun v => callsView s.addrs v (loopCalls true accepts reactions tasks)) hview

/-! ## The callbacks of hiredis -/

/-- The account is right, and no list is being walked. -/
structure Settled (s : RedisMgr) : Prop where
  sound : Sound s
  idle : ∀ (c : ℕ) (obj : RdsConnection), s.objs[c]? = some obj → obj.walking = false

/-- What calls find when the connection `c` is found as `e`. -/
def viewAt (s : RedisMgr) (c : ℕ) (e : Entry) (key : Bytes) : Entry :=
  if s.conns.lookup key = some c then e else s.view key

theorem view_setObj_eq {c : ℕ} {obj : RdsConnection} (hobj : s.objs[c]? = some obj)
    (f : RdsConnection → RdsConnection) : (s.setObj c f).view = s.viewAt c (f obj).entry := by
  funext key
  unfold viewAt
  split_ifs with hconn
  · exact view_of_lookup (s := s.setObj c f) hconn (getElem?_setObj_self hobj f)
  · unfold view
    rw [show (s.setObj c f).conns = s.conns from rfl]
    cases hc : s.conns.lookup key with
    | none => rfl
    | some i =>
      have hci : c ≠ i := fun h => hconn (h ▸ hc)
      simp only [getElem?_setObj_of_ne hci]

/-- The connection of a context that is not gone. -/
theorem Linked.owner (h : Linked s) {k : ℕ} {ctx : RedisCtx} (hctx : s.ctxs[k]? = some ctx)
    (hphase : ctx.phase = .connecting ∨ ctx.phase = .connected) :
    ∃ obj, s.objs[ctx.data]? = some obj ∧ obj.ctx = some k ∧ obj.state ≠ .closed ∧
      obj.deleted = false ∧ ctx.phase = obj.state.phase := by
  obtain ⟨obj, hobj, hk⟩ := h.live k ctx hctx hphase
  have hopen : obj.state ≠ .closed := by
    intro hclosed
    rw [h.closed _ obj hobj hclosed] at hk
    cases hk
  obtain ⟨hdeleted, k', ctx', hk', hctx', -, hphase'⟩ := h.active _ obj hobj hopen
  obtain rfl : k = k' := Option.some.inj (hk.symm.trans hk')
  obtain rfl := Option.some.inj (hctx.symm.trans hctx')
  exact ⟨obj, hobj, hk, hopen, hdeleted, hphase'⟩

/-- The state in which the loop of `on_redis_connect_callback` starts. -/
theorem Settled.onConnect (h : Settled s) {k : ℕ} {ctx : RedisCtx} {obj : RdsConnection}
    (hobj : s.objs[ctx.data]? = some obj) (hk : obj.ctx = some k) (hopen : obj.state ≠ .closed)
    (hdeleted : obj.deleted = false) (ok : Bool) :
    Sound ((s.setPhase k (if ok then .connected else .gone)).setObj ctx.data (.onConnect ok)) := by
  refine ⟨h.sound.linked.relink hobj hopen hk ?_ ?_ ?_ ?_ ?_, ?_, h.sound.numbered.distinct,
    h.sound.numbered.fresh⟩
  · cases ok with
    | true => exact fun hclosed => by cases hclosed
    | false => exact fun _ => rfl
  · cases ok with
    | true => exact fun _ => ⟨hdeleted, hk, rfl⟩
    | false => exact fun hne => absurd rfl hne
  · cases ok <;> exact fun _ hwalk => by cases hwalk
  · cases ok with
    | true => exact fun _ => hk
    | false => exact fun hlive => by rcases hlive with hp | hp <;> cases hp
  · cases ok <;> exact fun hleft => by cases hleft
  · refine Accounted.setObj (h.sound.accounted.setPhase k _) fun obj _ => ?_
    cases ok <;> exact ⟨rfl, rfl, rfl⟩

theorem Settled.onConnectCallback (h : Settled s) {k : ℕ} {ctx : RedisCtx} {obj : RdsConnection}
    {ok : Bool} {accepts : ℕ → Bool} {reactions : ℕ → List RdsSend}
    (hobj : s.objs[ctx.data]? = some obj) (hk : obj.ctx = some k) (hopen : obj.state ≠ .closed)
    (hdeleted : obj.deleted = false)
    (hrun : (s.setPhase k (if ok then .connected else .gone)).onConnectCallback ctx.data ok accepts
      reactions = some s') : Settled s' := by
  obtain ⟨obj', s₁, hobj', -, hwalk, rfl⟩ := onConnectCallback_cases hrun
  obtain rfl : obj = obj' := Option.some.inj (hobj.symm.trans hobj')
  have hwalked := (h.onConnect hobj hk hopen hdeleted ok).walk
    (getElem?_setObj_self (s := s.setPhase k _) hobj (.onConnect ok)) (by cases ok <;> rfl)
    (by cases ok <;> rfl) hwalk
  obtain ⟨settled, hown⟩ := hwalked.own
  refine ⟨⟨hwalked.sound.linked.setObj fun o ho => ?_, hwalked.sound.accounted.setObj
    fun o ho => ?_, hwalked.sound.numbered.distinct, hwalked.sound.numbered.fresh⟩, ?_⟩
  · exact ⟨rfl, rfl, fun _ => rfl, id, fun _ _ => rfl⟩
  · obtain rfl := Option.some.inj (hown.symm.trans ho)
    exact ⟨rfl, rfl, rfl⟩
  · intro i o ho
    rcases Heap.getElem?_modify_cases ho with ⟨-, o', -, rfl⟩ | ⟨hi, hold⟩
    · rfl
    · by_contra hbusy
      -- A connection that the loop left walked was walked before it.
      have hbefore := hwalked.others i o (Ne.symm hi) hold ((Bool.not_eq_false _).mp hbusy)
      rw [getElem?_setObj_of_ne hi] at hbefore
      exact hbusy (h.idle i o hbefore)

/-- When the callback has a meaning. -/
theorem Settled.onConnectCallback_eq_none (h : Settled s) {k : ℕ} {ctx : RedisCtx}
    {obj : RdsConnection} {ok : Bool} {accepts : ℕ → Bool} {reactions : ℕ → List RdsSend}
    (hobj : s.objs[ctx.data]? = some obj) (hk : obj.ctx = some k) (hopen : obj.state ≠ .closed)
    (hdeleted : obj.deleted = false) :
    (s.setPhase k (if ok then .connected else .gone)).onConnectCallback ctx.data ok accepts
        reactions = none ↔
      callsView s.addrs (s.viewAt ctx.data (if ok then .active else .unusable))
        (loopCalls ok accepts reactions obj.waitTasks) = none := by
  have hsound := h.onConnect hobj hk hopen hdeleted ok
  have hself := getElem?_setObj_self (s := s.setPhase k (if ok then .connected else .gone)) hobj
    (.onConnect ok)
  have hview : (walk ctx.data ok accepts reactions
      ((s.setPhase k (if ok then .connected else .gone)).setObj ctx.data (.onConnect ok))
      obj.waitTasks).map view = _ :=
    hsound.linked.walk_view hself (by cases ok <;> rfl) (fun hok => by rw [hok]; rfl) obj.waitTasks
  have hentry : (obj.onConnect ok).entry = if ok then .active else .unusable := by
    cases ok with
    | true =>
      simp only [RdsConnection.onConnect, RdsConnection.entry, hdeleted]
      rfl
    | false =>
      simp only [RdsConnection.onConnect, RdsConnection.entry, hdeleted]
      rfl
  rw [view_setObj_eq (s := s.setPhase k _) hobj, hentry] at hview
  have hobj' : (s.setPhase k (if ok then .connected else .gone)).objs[ctx.data]? = some obj := hobj
  have hcalls : callsView s.addrs (s.viewAt ctx.data (if ok then .active else .unusable))
      (loopCalls ok accepts reactions obj.waitTasks) = _ := hview.symm
  unfold RedisMgr.onConnectCallback
  rw [hcalls, Option.map_eq_none_iff]
  simp only [hobj', hdeleted, Bool.false_eq_true, if_false]
  cases walk ctx.data ok accepts reactions
      ((s.setPhase k (if ok then .connected else .gone)).setObj ctx.data (.onConnect ok))
      obj.waitTasks with
  | none => exact ⟨fun _ => rfl, fun _ => rfl⟩
  | some s₁ => simp only [reduceCtorEq]

/-! ## The destructor -/

/-- Without addresses every call is refused. -/
theorem sent_of_empty (haddrs : s.addrs = ∅) {call : RdsSend} {b : Bool}
    (hsent : Sent s call b s') : s' = { s with nextSend := s.nextSend + 1 } := by
  have hgot : ∀ {node r s₁}, Got { s with nextSend := s.nextSend + 1 } node r s₁ →
      r = none ∧ s₁ = { s with nextSend := s.nextSend + 1 } := by
    intro node r s₁ hgot
    have hnone : s.addrs.lookup node = none := by
      rw [haddrs]
      exact Finmap.lookup_empty _
    cases hgot with
    | unknown _ => exact ⟨rfl, rfl⟩
    | active _ _ _ _ haddr _ _ _ _ => exact absurd (hnone.symm.trans haddr) (by simp)
    | failed _ _ _ _ _ haddr _ _ _ => exact absurd (hnone.symm.trans haddr) (by simp)
    | opened _ _ _ _ _ haddr _ _ _ _ => exact absurd (hnone.symm.trans haddr) (by simp)
  cases hsent with
  | invalid => rfl
  | refused node s' hrefused => exact (hgot hrefused).2
  | answered node fn c b s₁ s₂ hanswered _ => cases (hgot hanswered).1

/-- The connections and the contexts are the same, and there are no addresses. -/
structure Quiet (s s' : RedisMgr) : Prop where
  addrs : s'.addrs = ∅
  conns : s'.conns = s.conns
  objs : s'.objs = s.objs
  ctxs : s'.ctxs = s.ctxs

theorem quiet_runSends (haddrs : s.addrs = ∅) {calls : List RdsSend}
    (hrun : s.runSends calls = some s') : Quiet s s' := by
  induction calls generalizing s with
  | nil =>
    cases hrun
    exact ⟨haddrs, rfl, rfl, rfl⟩
  | cons call calls ih =>
    unfold RedisMgr.runSends at hrun
    split at hrun
    · cases hrun
    · next b s₁ hsend =>
      obtain rfl := sent_of_empty haddrs (sent_of_sendTo hsend)
      have hempty : addrs { s with nextSend := s.nextSend + 1 } = ∅ := haddrs
      obtain ⟨haddrs', hconns, hobjs, hctxs⟩ := ih hempty hrun
      exact ⟨haddrs', hconns, hobjs, hctxs⟩

/-- Without addresses every call has a meaning. -/
theorem callsView_empty (view : Bytes → Entry) (calls : List RdsSend) :
    callsView ∅ view calls = some view := by
  induction calls with
  | nil => rfl
  | cons call calls ih =>
    have hcall : callView ∅ view call = some view := by
      unfold callView
      split
      · split_ifs
        · rfl
        · rfl
      · rfl
    rw [callsView, hcall]
    exact ih

/-- What the loop of a destructor leaves alone. -/
structure QuietWalk (s : RedisMgr) (c : ℕ) (s' : RedisMgr) : Prop where
  addrs : s'.addrs = ∅
  conns : s'.conns = s.conns
  ctxs : s'.ctxs = s.ctxs
  others : ∀ i, i ≠ c → s'.objs[i]? = s.objs[i]?

theorem quiet_walk (haddrs : s.addrs = ∅) {c : ℕ} {accepts : ℕ → Bool}
    {reactions : ℕ → List RdsSend} {tasks : List RdsTask}
    (hrun : walk c false accepts reactions s tasks = some s') : QuietWalk s c s' := by
  induction tasks generalizing s with
  | nil =>
    cases hrun
    exact ⟨haddrs, rfl, rfl, fun _ _ => rfl⟩
  | cons task tasks ih =>
    obtain ⟨s₁, ⟨hok, -⟩ | hinvoke, hrest⟩ := walk_cons_cases hrun
    · cases hok
    · have hempty : addrs { s.passed c task tasks with called := s.called ++ [task.id] } = ∅ :=
        haddrs
      obtain ⟨haddrs₁, hconns₁, hobjs₁, hctxs₁⟩ := quiet_runSends hempty hinvoke
      obtain ⟨haddrs', hconns, hctxs, hothers⟩ := ih haddrs₁ hrest
      refine ⟨haddrs', hconns.trans hconns₁, hctxs.trans hctxs₁, fun i hi => ?_⟩
      rw [hothers i hi, hobjs₁]
      exact getElem?_setObj_of_ne (Ne.symm hi) s _

theorem setObj_setObj (s : RedisMgr) (c : ℕ) (f g : RdsConnection → RdsConnection) :
    (s.setObj c f).setObj c g = s.setObj c (g ∘ f) := by
  simp only [setObj, List.modify_modify_eq]

/-- An open connection is deleted, with an empty list. -/
theorem Sound.delete (h : Sound s) {c k : ℕ} {obj : RdsConnection} {phase : CtxPhase}
    (hobj : s.objs[c]? = some obj) (hk : obj.ctx = some k) (hopen : obj.state ≠ .closed)
    (hempty : obj.waitTasks = []) (hphase : phase = .gone ∨ phase = .disconnecting) :
    Sound ((s.setPhase k phase).setObj c .dead) := by
  have hnot : ¬ (phase = .connecting ∨ phase = .connected) := by
    rcases hphase with rfl | rfl <;> decide
  refine ⟨h.linked.relink hobj hopen hk (fun _ => rfl) (fun hne => absurd rfl hne)
    (fun _ _ => rfl) (fun hlive => absurd hlive hnot) fun _ => rfl, ?_, h.numbered.distinct,
    h.numbered.fresh⟩
  refine Accounted.setObj (h.accounted.setPhase k phase) fun obj' hobj' => ?_
  obtain rfl := Option.some.inj (hobj.symm.trans hobj')
  exact ⟨hempty.symm, rfl, rfl⟩

/-- `redisAsyncDisconnect` and what follows it in the destructor, after the loop. -/
theorem Sound.disconnect (h : Sound s) {c k : ℕ} {obj : RdsConnection} (waited : List RdsTask)
    (hobj : s.objs[c]? = some obj) (hk : obj.ctx = some k) (hopen : obj.state ≠ .closed)
    (hempty : obj.waitTasks = []) (hwaited : obj.state = .connected → waited = []) :
    ∃ s₁ phase, s.disconnect k waited = some s₁ ∧ (phase = .gone ∨ phase = .disconnecting) ∧
      s₁.setObj c .dead = (s.setPhase k phase).setObj c .dead := by
  obtain ⟨hdeleted, k', ctx, hk', hctx, hdata, hphase⟩ := h.linked.active c obj hobj hopen
  obtain rfl : k = k' := Option.some.inj (hk.symm.trans hk')
  unfold RedisMgr.disconnect
  simp only [hctx]
  cases hstate : obj.state with
  | closed => exact absurd hstate hopen
  | connecting =>
    rw [hstate] at hphase
    simp only [hphase, RdsState.phase]
    exact ⟨_, .gone, rfl, Or.inl rfl, rfl⟩
  | connected =>
    rw [hstate] at hphase
    simp only [hphase, RdsState.phase]
    by_cases hpending : ctx.pending = []
    · have hobj' : (s.setPhase k .gone).objs[ctx.data]? = some obj := hdata ▸ hobj
      refine ⟨((s.setPhase k .gone).setObj ctx.data (.onConnect true)).setObj ctx.data fun obj =>
        { obj with waitTasks := [], walking := false }, .gone, ?_, Or.inl rfl, ?_⟩
      · simp only [if_pos hpending, hwaited hstate, ne_eq, not_true_eq_false, if_false,
          RedisMgr.onConnectCallback, hobj', hdeleted, Bool.false_eq_true, hempty, RedisMgr.walk]
      · rw [hdata, setObj_setObj, setObj_setObj]
        rfl
    · simp only [if_neg hpending]
      exact ⟨_, .disconnecting, rfl, Or.inr rfl, rfl⟩

/-- **The destructor** of a connection: the waiting commands are called back, in order. -/
theorem Settled.destory (h : Settled s) (haddrs : s.addrs = ∅) {c : ℕ} {obj : RdsConnection}
    (hobj : s.objs[c]? = some obj) (hdeleted : obj.deleted = false)
    (reactions : ℕ → List RdsSend) :
    ∃ s', s.destory c reactions = some s' ∧ Settled s' ∧ s'.addrs = ∅ ∧ s'.conns = s.conns ∧
      ∀ i, i ≠ c → s'.objs[i]? = s.objs[i]? := by
  have hidle := h.idle c obj hobj
  have hdead : ∀ s₁ : RedisMgr, (∀ i, i ≠ c → s₁.objs[i]? = s.objs[i]?) →
      ∀ (i : ℕ) (o : RdsConnection), (s₁.setObj c .dead).objs[i]? = some o → o.walking = false := by
    intro s₁ hothers i o ho
    rcases Heap.getElem?_modify_cases ho with ⟨-, o', -, rfl⟩ | ⟨hi, hold⟩
    · rfl
    · exact h.idle i o (hothers i (Ne.symm hi) ▸ hold)
  unfold RedisMgr.destory
  simp only [hobj, hdeleted, Bool.false_eq_true, if_false]
  by_cases hopen : obj.state = .closed
  · have hctx := h.sound.linked.closed c obj hobj hopen
    have hempty := h.sound.linked.waits c obj hobj (by rw [hopen]; decide) hidle
    simp only [hctx]
    refine ⟨_, rfl, ⟨⟨h.sound.linked.setObj fun o ho => ?_, h.sound.accounted.setObj fun o ho => ?_,
      h.sound.numbered.distinct, h.sound.numbered.fresh⟩, hdead s fun _ _ => rfl⟩, haddrs, rfl,
      fun i hi => getElem?_setObj_of_ne (Ne.symm hi) s _⟩
    · obtain rfl := Option.some.inj (hobj.symm.trans ho)
      exact ⟨hctx.symm, hopen.symm, fun hne => absurd hopen hne, fun _ => rfl, fun _ _ => rfl⟩
    · obtain rfl := Option.some.inj (hobj.symm.trans ho)
      exact ⟨hempty.symm, rfl, rfl⟩
  · obtain ⟨-, k, ctx, hk, -, -, -⟩ := h.sound.linked.active c obj hobj hopen
    simp only [hk]
    -- The loop over the waiting commands, in which every call is refused.
    have hstart : Sound (s.setObj c fun obj => { obj with walking := true }) :=
      ⟨h.sound.linked.setObj fun o _ => ⟨rfl, rfl, fun _ => rfl, id, fun _ hw => by cases hw⟩,
        h.sound.accounted.setObj fun o _ => ⟨rfl, rfl, rfl⟩, h.sound.numbered.distinct,
        h.sound.numbered.fresh⟩
    have hself := getElem?_setObj_self hobj fun obj => { obj with walking := true }
    have hview : (walk c false (fun _ => false) reactions
        (s.setObj c fun obj => { obj with walking := true }) obj.waitTasks).map view = _ :=
      hstart.linked.walk_view hself rfl (fun hok => by cases hok) obj.waitTasks
    rw [show (s.setObj c _).addrs = ∅ from haddrs, callsView_empty] at hview
    obtain ⟨s₂, hwalk, -⟩ := Option.map_eq_some_iff.mp hview
    have hwalked := hstart.walk hself rfl rfl hwalk
    obtain ⟨settled, hown⟩ := hwalked.own
    have hnone : (s.setObj c fun obj => { obj with walking := true }).addrs = ∅ := haddrs
    obtain ⟨haddrs₂, hconns₂, -, hothers₂⟩ := quiet_walk hnone hwalk
    have hothers : ∀ i, i ≠ c → s₂.objs[i]? = s.objs[i]? := fun i hi =>
      (hothers₂ i hi).trans (getElem?_setObj_of_ne (Ne.symm hi) s _)
    obtain ⟨s₁, phase, hdisconnect, hphase, heq⟩ := hwalked.sound.disconnect obj.waitTasks
      hown hk hopen rfl fun hconnected =>
        h.sound.linked.waits c obj hobj (by rw [show obj.state = _ from hconnected]; decide) hidle
    simp only [hwalk, hdisconnect, heq]
    refine ⟨_, rfl, ⟨hwalked.sound.delete hown hk hopen rfl hphase,
      hdead (s₂.setPhase k phase) hothers⟩, haddrs₂, hconns₂, fun i hi => ?_⟩
    exact (getElem?_setObj_of_ne (Ne.symm hi) _ _).trans (hothers i hi)

theorem destory_of_deleted {c : ℕ} {obj : RdsConnection} (hobj : s.objs[c]? = some obj)
    (hdeleted : obj.deleted = true) (reactions : ℕ → List RdsSend) :
    s.destory c reactions = none := by
  simp only [RedisMgr.destory, hobj, hdeleted, if_true]

/-- The destructor of the manager. It has no meaning when an entry of the map points to a
connection that was deleted. -/
theorem Settled.deleteAll (h : Settled s) (haddrs : s.addrs = ∅) (reactions : ℕ → List RdsSend)
    {entries : List (Bytes × ℕ)} (hnodup : (entries.map Prod.snd).Nodup)
    (hobjs : ∀ e ∈ entries, ∃ obj, s.objs[e.2]? = some obj) :
    (∀ s', deleteAll reactions s entries = some s' → Settled s') ∧
      (deleteAll reactions s entries = none ↔
        ∃ e ∈ entries, ∃ obj, s.objs[e.2]? = some obj ∧ obj.deleted = true) := by
  induction entries generalizing s with
  | nil =>
    refine ⟨fun s' hs' => ?_, ?_⟩
    · cases hs'
      exact h
    · simp [RedisMgr.deleteAll]
  | cons e entries ih =>
    obtain ⟨key, c⟩ := e
    obtain ⟨obj, hobj⟩ := hobjs (key, c) List.mem_cons_self
    rw [List.map_cons, List.nodup_cons] at hnodup
    unfold RedisMgr.deleteAll
    cases hdeleted : obj.deleted with
    | true =>
      simp only [destory_of_deleted hobj hdeleted]
      refine ⟨fun s' hs' => (by cases hs'), ?_⟩
      exact ⟨fun _ => ⟨(key, c), List.mem_cons_self, obj, hobj, hdeleted⟩, fun _ => trivial⟩
    | false =>
      obtain ⟨s₁, hdestory, hsettled, haddrs₁, -, hothers⟩ := h.destory haddrs hobj hdeleted reactions
      simp only [hdestory]
      -- The other entries point to other connections.
      have hsame : ∀ e ∈ entries, s₁.objs[e.2]? = s.objs[e.2]? := fun e he =>
        hothers e.2 fun hc => hnodup.1 (List.mem_map.mpr ⟨e, he, hc⟩)
      obtain ⟨hsome, hnone⟩ := ih hsettled haddrs₁ hnodup.2 fun e he => by
        rw [hsame e he]
        exact hobjs e (List.mem_cons_of_mem _ he)
      refine ⟨hsome, hnone.trans ⟨?_, ?_⟩⟩
      · rintro ⟨e, he, o, ho, hdel⟩
        exact ⟨e, List.mem_cons_of_mem _ he, o, hsame e he ▸ ho, hdel⟩
      · rintro ⟨e, he, o, ho, hdel⟩
        rcases List.mem_cons.mp he with rfl | he
        · obtain rfl := Option.some.inj (hobj.symm.trans ho)
          rw [hdeleted] at hdel
          cases hdel
        · exact ⟨e, he, o, (hsame e he).symm ▸ ho, hdel⟩

/-- The entries of the map point to different connections. -/
theorem Linked.enumerated (h : Linked s) {entries : List (Bytes × ℕ)}
    (henum : s.conns.Enumerates entries) :
    (entries.map Prod.snd).Nodup ∧ ∀ e ∈ entries, ∃ obj, s.objs[e.2]? = some obj := by
  have hlookup : ∀ e ∈ entries, s.conns.lookup e.1 = some e.2 := fun e he =>
    (henum.2 e.1 e.2).mp he
  refine ⟨List.Nodup.map_on ?_ (List.Nodup.of_map _ henum.1), fun e he =>
    h.conns e.1 e.2 (hlookup e he)⟩
  intro e he e' he' hsame
  have hkey := h.inj e.1 e'.1 e.2 (hlookup e he) (hsame ▸ hlookup e' he')
  exact Prod.ext hkey hsame

/-- The destructor of the manager forgets the addresses first. -/
theorem Settled.forget (h : Settled s) : Settled { s with addrs := ∅ } :=
  ⟨⟨h.sound.linked.of_fields rfl rfl rfl, h.sound.accounted.of_fields rfl rfl rfl,
    h.sound.numbered.distinct, h.sound.numbered.fresh⟩, h.idle⟩

/-! ## Events -/

/-- The events after which a run has no meaning. A call, or the calls of the callbacks of an
event, find a connection that was deleted or whose list is being walked, or hiredis has no memory
for a context; hiredis reports the end of a context whose connection was deleted before its
replies came; or the destructor finds a connection that a failed reconnect deleted. -/
def Hazard (s : RedisMgr) : RedisEvent → Prop
  | .send call => callsView s.addrs s.view [call] = none
  | .connected k ok accepts reactions =>
    ∃ ctx obj, s.ctxs[k]? = some ctx ∧ ctx.phase = .connecting ∧ s.objs[ctx.data]? = some obj ∧
      callsView s.addrs (s.viewAt ctx.data (if ok then .active else .unusable))
        (loopCalls ok accepts reactions obj.waitTasks) = none
  | .reply k reactions =>
    ∃ ctx task, s.ctxs[k]? = some ctx ∧ ctx.pending.head? = some task ∧
      callsView s.addrs s.view (reactions task.id) = none
  | .disconnected k _ =>
    ∃ ctx, s.ctxs[k]? = some ctx ∧ ctx.phase = .disconnecting ∧ ctx.pending = []
  | .destroy entries _ =>
    s.conns.Enumerates entries ∧
      ∃ key c obj, s.conns.lookup key = some c ∧ s.objs[c]? = some obj ∧ obj.deleted = true

theorem Settled.sent (h : Settled s) {call : RdsSend} {b : Bool} (hsend : s.sendTo call = some (b, s')) :
    Settled s' := by
  have hsent := sent_of_sendTo hsend
  refine ⟨h.sound.sent hsent, fun c obj hobj => ?_⟩
  by_contra hwalk
  have hbefore := (Framed.of_sent hsent).walked c obj hobj ((Bool.not_eq_false _).mp hwalk)
  exact hwalk (h.idle c obj hbefore)

/-- A reply that hiredis passes on, with the call it answers. -/
theorem Settled.reply (h : Settled s) {k : ℕ} {ctx : RedisCtx} {task : RdsTask}
    {tasks : List RdsTask} (hctx : s.ctxs[k]? = some ctx) (hpending : ctx.pending = task :: tasks) :
    Holding task.id (s.setCtx k fun ctx => { ctx with pending := tasks }) := by
  refine ⟨h.sound.linked.setCtx k fun _ => ⟨rfl, rfl⟩, ?_, h.sound.numbered.distinct,
    h.sound.numbered.fresh⟩
  refine h.sound.accounted.of_perm rfl ?_ h.sound.accounted.inOrder
  have hremove := Heap.flatMap_modify_remove hctx (m := [task.id])
    (f := fun ctx => { ctx with pending := tasks })
    (g := fun ctx => ctx.pending.map RdsTask.id) (by rw [hpending]; rfl)
  have hswap : ([task.id] ++ (s.waiting ++ pending (s.setCtx k fun ctx =>
      { ctx with pending := tasks }))).Perm
      (s.waiting ++ ([task.id] ++ pending (s.setCtx k fun ctx => { ctx with pending := tasks }))) := by
    rw [← List.append_assoc, ← List.append_assoc]
    exact List.Perm.append_right _ List.perm_append_comm
  exact hswap.trans (List.Perm.append_left _ hremove)

/-- **Every event keeps the account.** -/
theorem Settled.onConnected (h : Settled s) {k : ℕ} {ok : Bool} {accepts : ℕ → Bool}
    {reactions : ℕ → List RdsSend} (hrun : s.onConnected k ok accepts reactions = some s') :
    Settled s' := by
  unfold RedisMgr.onConnected at hrun
  cases hctx : s.ctxs[k]? with
  | none =>
    simp only [hctx] at hrun
    cases hrun
    exact h
  | some ctx =>
    simp only [hctx] at hrun
    by_cases hphase : ctx.phase = .connecting
    · rw [if_pos hphase] at hrun
      obtain ⟨obj, hobj, hk, hopen, hdeleted, -⟩ := h.sound.linked.owner hctx (Or.inl hphase)
      exact h.onConnectCallback hobj hk hopen hdeleted hrun
    · rw [if_neg hphase] at hrun
      cases hrun
      exact h

theorem onConnected_eq_none (h : Settled s) {k : ℕ} {ok : Bool} {accepts : ℕ → Bool}
    {reactions : ℕ → List RdsSend} :
    s.onConnected k ok accepts reactions = none ↔
      Hazard s (.connected k ok accepts reactions) := by
  unfold RedisMgr.onConnected
  change _ ↔ ∃ ctx obj, s.ctxs[k]? = some ctx ∧ ctx.phase = .connecting ∧
    s.objs[ctx.data]? = some obj ∧ _
  cases hctx : s.ctxs[k]? with
  | none => simp
  | some ctx =>
    by_cases hphase : ctx.phase = .connecting
    · obtain ⟨obj, hobj, hk, hopen, hdeleted, -⟩ := h.sound.linked.owner hctx (Or.inl hphase)
      simp only [if_pos hphase]
      refine (h.onConnectCallback_eq_none hobj hk hopen hdeleted).trans ⟨fun hcalls => ?_, ?_⟩
      · exact ⟨ctx, obj, rfl, hphase, hobj, hcalls⟩
      · rintro ⟨ctx', obj', hctx', -, hobj', hcalls⟩
        obtain rfl := Option.some.inj hctx'
        obtain rfl := Option.some.inj (hobj.symm.trans hobj')
        exact hcalls
    · simp [hphase]

theorem Settled.onReply (h : Settled s) {k : ℕ} {reactions : ℕ → List RdsSend}
    (hrun : s.onReply k reactions = some s') : Settled s' := by
  unfold RedisMgr.onReply at hrun
  cases hctx : s.ctxs[k]? with
  | none =>
    simp only [hctx] at hrun
    cases hrun
    exact h
  | some ctx =>
    simp only [hctx] at hrun
    split at hrun
    · cases hrun
      exact h
    · next task tasks hpending =>
      obtain ⟨hsound, hframed⟩ := (h.reply hctx hpending).invoke hrun
      refine ⟨hsound, fun c obj hobj => ?_⟩
      by_contra hwalk
      have hbefore := hframed.walked c obj hobj ((Bool.not_eq_false _).mp hwalk)
      exact hwalk (h.idle c obj hbefore)

theorem onReply_eq_none (h : Settled s) {k : ℕ} {reactions : ℕ → List RdsSend} :
    s.onReply k reactions = none ↔ Hazard s (.reply k reactions) := by
  unfold RedisMgr.onReply
  change _ ↔ ∃ ctx task, s.ctxs[k]? = some ctx ∧ ctx.pending.head? = some task ∧ _
  cases hctx : s.ctxs[k]? with
  | none => simp
  | some ctx =>
    cases hpending : ctx.pending with
    | nil => simp [hpending]
    | cons task tasks =>
      have hlinked : Linked { s.setCtx k fun ctx => { ctx with pending := tasks } with
          called := s.called ++ [task.id] } :=
        Linked.of_fields (h.reply hctx hpending).linked rfl rfl rfl
      have hview := hlinked.runSends_view (reactions task.id)
      simp only [hpending]
      have hinvoke : (s.setCtx k fun ctx => { ctx with pending := tasks }).invoke task reactions =
          none ↔ callsView s.addrs s.view (reactions task.id) = none := by
        rw [show callsView s.addrs s.view (reactions task.id) = _ from hview.symm,
          Option.map_eq_none_iff]
        rfl
      refine hinvoke.trans ⟨fun hcalls => ?_, ?_⟩
      · exact ⟨ctx, task, rfl, by rw [hpending]; rfl, hcalls⟩
      · rintro ⟨ctx', task', hctx', hhead, hcalls⟩
        obtain rfl := Option.some.inj hctx'
        rw [hpending] at hhead
        obtain rfl := Option.some.inj hhead
        exact hcalls

/-- The callback of a context that was told to disconnect reaches a connection that is gone. -/
theorem Settled.disconnecting (h : Settled s) {k : ℕ} {ctx : RedisCtx}
    (hctx : s.ctxs[k]? = some ctx) (hphase : ctx.phase = .disconnecting) (phase : CtxPhase)
    (reactions : ℕ → List RdsSend) :
    (s.setPhase k phase).onConnectCallback ctx.data true (fun _ => false) reactions = none := by
  obtain ⟨obj, hobj, hdeleted⟩ := h.sound.linked.left k ctx hctx hphase
  have hobj' : (s.setPhase k phase).objs[ctx.data]? = some obj := hobj
  simp only [RedisMgr.onConnectCallback, hobj', hdeleted, if_true]

theorem Settled.onDisconnected (h : Settled s) {k : ℕ} {reactions : ℕ → List RdsSend}
    (hrun : s.onDisconnected k reactions = some s') : Settled s' := by
  unfold RedisMgr.onDisconnected at hrun
  cases hctx : s.ctxs[k]? with
  | none =>
    simp only [hctx] at hrun
    cases hrun
    exact h
  | some ctx =>
    simp only [hctx] at hrun
    by_cases hpending : ctx.pending = []
    · rw [if_neg (not_not.mpr hpending)] at hrun
      cases hphase : ctx.phase with
      | connecting =>
        simp only [hphase] at hrun
        cases hrun
        exact h
      | gone =>
        simp only [hphase] at hrun
        cases hrun
        exact h
      | connected =>
        simp only [hphase] at hrun
        obtain ⟨obj, hobj, hk, hopen, hdeleted, -⟩ := h.sound.linked.owner hctx (Or.inr hphase)
        have hrun' : (s.setPhase k (if false then .connected else .gone)).onConnectCallback
            ctx.data false (fun _ => false) reactions = some s' := hrun
        exact h.onConnectCallback hobj hk hopen hdeleted hrun'
      | disconnecting =>
        simp only [hphase, h.disconnecting hctx hphase] at hrun
        cases hrun
    · rw [if_pos hpending] at hrun
      cases hrun
      exact h

theorem onDisconnected_eq_none (h : Settled s) {k : ℕ} {reactions : ℕ → List RdsSend} :
    s.onDisconnected k reactions = none ↔ Hazard s (.disconnected k reactions) := by
  unfold RedisMgr.onDisconnected
  change _ ↔ ∃ ctx, s.ctxs[k]? = some ctx ∧ ctx.phase = .disconnecting ∧ ctx.pending = []
  cases hctx : s.ctxs[k]? with
  | none => simp
  | some ctx =>
    by_cases hpending : ctx.pending = []
    · cases hphase : ctx.phase with
      | connecting => simp [hphase, hpending]
      | gone => simp [hphase, hpending]
      | connected =>
        obtain ⟨obj, hobj, hk, hopen, hdeleted, hstate⟩ :=
          h.sound.linked.owner hctx (Or.inr hphase)
        -- No command waits in a connected connection, so no callback is called.
        have hconnected : obj.state = .connected := by
          cases hs : obj.state with
          | connected => rfl
          | connecting =>
            rw [hphase, hs] at hstate
            cases hstate
          | closed => exact absurd hs hopen
        have hempty := h.sound.linked.waits _ obj hobj (by rw [hconnected]; decide)
          (h.idle _ obj hobj)
        have hiff : (s.setPhase k (if false then .connected else .gone)).onConnectCallback ctx.data
            false (fun _ => false) reactions = none ↔ _ :=
          h.onConnectCallback_eq_none hobj hk hopen hdeleted
        have hnone : (s.setPhase k .gone).onConnectCallback ctx.data false (fun _ => false)
            reactions ≠ none := by
          intro hnone
          have hcalls := hiff.mp hnone
          rw [hempty] at hcalls
          cases hcalls
        simp [hphase, hpending, hnone]
      | disconnecting => simp [hphase, hpending, h.disconnecting hctx hphase]
    · simp [hpending]

theorem Settled.delete (h : Settled s) {entries : List (Bytes × ℕ)} {reactions : ℕ → List RdsSend}
    (hrun : s.delete entries reactions = some s') : Settled s' := by
  unfold RedisMgr.delete at hrun
  by_cases henum : s.conns.Enumerates entries
  · rw [if_pos henum] at hrun
    obtain ⟨hnodup, hobjs⟩ := h.sound.linked.enumerated henum
    obtain ⟨hsettled, -⟩ := h.forget.deleteAll rfl reactions hnodup hobjs
    obtain ⟨s₁, hdelete, rfl⟩ := Option.map_eq_some_iff.mp hrun
    have h₁ := hsettled s₁ hdelete
    have hlinked := h₁.sound.linked
    exact ⟨⟨⟨fun key c hc => by simp at hc, fun key key' c hc => by simp at hc, hlinked.closed,
      hlinked.active, hlinked.waits, hlinked.live, hlinked.left⟩,
      h₁.sound.accounted.of_fields rfl rfl rfl, h₁.sound.numbered.distinct,
      h₁.sound.numbered.fresh⟩, h₁.idle⟩
  · rw [if_neg henum] at hrun
    cases hrun
    exact h

theorem delete_eq_none (h : Settled s) {entries : List (Bytes × ℕ)}
    {reactions : ℕ → List RdsSend} :
    s.delete entries reactions = none ↔ Hazard s (.destroy entries reactions) := by
  unfold RedisMgr.delete
  change _ ↔ s.conns.Enumerates entries ∧ ∃ key c obj, s.conns.lookup key = some c ∧
    s.objs[c]? = some obj ∧ obj.deleted = true
  by_cases henum : s.conns.Enumerates entries
  · obtain ⟨hnodup, hobjs⟩ := h.sound.linked.enumerated henum
    obtain ⟨-, hnone⟩ := h.forget.deleteAll rfl reactions hnodup hobjs
    rw [if_pos henum, Option.map_eq_none_iff, hnone]
    constructor
    · rintro ⟨e, he, obj, hobj, hdeleted⟩
      exact ⟨henum, e.1, e.2, obj, (henum.2 e.1 e.2).mp he, hobj, hdeleted⟩
    · rintro ⟨-, key, c, obj, hconn, hobj, hdeleted⟩
      exact ⟨(key, c), (henum.2 key c).mpr hconn, obj, hobj, hdeleted⟩
  · simp [henum]

theorem Settled.step (h : Settled s) {e : RedisEvent} (hrun : s.step e = some s') :
    Settled s' := by
  cases e with
  | send call =>
    obtain ⟨⟨b, s₁⟩, hsend, rfl⟩ := Option.map_eq_some_iff.mp hrun
    exact h.sent hsend
  | connected k ok accepts reactions => exact h.onConnected hrun
  | reply k reactions => exact h.onReply hrun
  | disconnected k reactions => exact h.onDisconnected hrun
  | destroy entries reactions => exact h.delete hrun

/-- **The events that have no meaning** are the hazards. -/
theorem Settled.step_eq_none (h : Settled s) (e : RedisEvent) : s.step e = none ↔ Hazard s e := by
  cases e with
  | send call =>
    have hview := h.sound.linked.sendTo_view call
    change (s.sendTo call).map Prod.snd = none ↔
      (callView s.addrs s.view call).bind (fun view => callsView s.addrs view []) = none
    rw [← hview]
    cases s.sendTo call with
    | none => exact ⟨fun _ => rfl, fun _ => rfl⟩
    | some p => exact ⟨fun hp => (by cases hp), fun hp => (by cases hp)⟩
  | connected k ok accepts reactions => exact onConnected_eq_none h
  | reply k reactions => exact onReply_eq_none h
  | disconnected k reactions => exact onDisconnected_eq_none h
  | destroy entries reactions => exact delete_eq_none h

theorem Settled.answered (h : Settled s) : Answered s := by
  refine ⟨h.sound.accounted.once, h.sound.numbered.distinct, h.sound.accounted.inOrder, ?_⟩
  intro c obj hobj hwaits
  have hconnecting : obj.state = .connecting := by
    by_contra hstate
    exact hwaits (h.sound.linked.waits c obj hobj hstate (h.idle c obj hobj))
  obtain ⟨-, k, ctx, -, hctx, hdata, hphase⟩ :=
    h.sound.linked.active c obj hobj (by rw [hconnecting]; decide)
  exact ⟨k, ctx, hctx, hdata, by rw [hphase, hconnecting]; rfl⟩

theorem settled_init (addrs : FiniteMap Bytes (Bytes × ℤ)) : Settled { addrs := addrs } := by
  refine ⟨⟨⟨?_, ?_, ?_, ?_, ?_, ?_, ?_⟩, ⟨List.Perm.refl _, ?_⟩, List.nodup_nil, ?_⟩, ?_⟩ <;>
    intros <;> simp_all

end RedisMgr

end Kimserver
