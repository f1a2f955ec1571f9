import Kimserver.Redis.Answers

/-!
# Closing nodes

Every accepted command should be answered once, also in the runs whose nodes are closed.
`m_conns` should point to live connections only, and `close` should remove the connection to a
node. A call that finds its connection closed and cannot open it again deletes it, but leaves its
entry; and `close` looks for the name of the node, where the entries are under the addresses.

While `close` deletes a connection, the callbacks of the waiting commands may send again. Where
they send to the connection that is being deleted, their commands are added to the list that is
being walked. The callbacks are given by the calls that each of them makes, in order; those that
come later make none.

## Main definitions

* `RedisMgr.close`, `CloseEvent`, `closeMachine`: the managers whose nodes are closed
* `RedisMgr.CloseHazard`: the events after which a run has no meaning
* `RedisMgr.Live`, `RedisMgr.Closed`: what the table should hold
* `RedisMgr.SpoilsIn`: a call deletes the connection of an entry
* `RedisMgr.CloseKeeps`: the events that keep the table as it should be

## Main results

* `RedisMgr.Settled.close`: deleting a connection keeps the account of its commands
* `redis_answered_iff`: the runs in which every accepted call is answered once
* `redis_live_iff`: the runs in which every entry is live and a closed node has none
-/

namespace Kimserver

namespace RedisMgr

section Functions

variable (s : RedisMgr)

/-- The callbacks of the commands that still wait, which make no calls. -/
def failRest (c : ℕ) : RedisMgr :=
  match s.objs[c]? with
  | none => s
  | some obj =>
    { s.setObj c fun obj => { obj with
        waitTasks := []
        settled := obj.settled ++ obj.waitTasks.map RdsTask.id } with
      called := s.called ++ obj.waitTasks.map RdsTask.id }

/-- The loop of `destory` over the waiting commands, and over those that come while it runs. -/
def failWaiting (c : ℕ) : RedisMgr → List (List RdsSend) → Option RedisMgr
  | s, [] => some (s.failRest c)
  | s, calls :: reactions =>
    match s.objs[c]? with
    | none => none
    | some obj =>
      match obj.waitTasks with
      | [] => some s
      | task :: tasks =>
        match runSends { s.passed c task tasks with called := s.called ++ [task.id] } calls with
        | none => none
        | some s => failWaiting c s reactions

/-- `delete` of a connection by `close`. -/
def deleteConn (c : ℕ) (reactions : List (List RdsSend)) : Option RedisMgr :=
  match s.objs[c]? with
  | none => none
  | some obj =>
    if obj.deleted then none
    else
      match obj.ctx with
      | none => some (s.setObj c .dead)
      | some k =>
        match failWaiting c s reactions with
        | none => none
        | some s => (s.disconnect k obj.waitTasks).map fun s => s.setObj c .dead

/-- `close`. -/
def close (node : Option Bytes) (reactions : List (List RdsSend)) : Option RedisMgr :=
  match node with
  | none => some s
  | some node =>
    match s.conns.lookup node with
    | none => some s
    | some c =>
      (s.deleteConn c reactions).map fun s =>
        { s with conns := s.conns.erase node, addrs := s.addrs.erase node }

/-- Every entry of `m_conns` points to a connection that was not deleted. -/
def Live : Prop := ∀ key c, s.conns.lookup key = some c →
  ∃ obj, s.objs[c]? = some obj ∧ obj.deleted = false

end Functions

end RedisMgr

/-- What happens to a manager whose nodes are closed. -/
inductive CloseEvent
  | redis (e : RedisEvent)
  | close (node : Option Bytes) (reactions : List (List RdsSend))

namespace RedisMgr

/-- The handler of an event. -/
def closeStep (s : RedisMgr) : CloseEvent → Option RedisMgr
  | .redis e => s.step e
  | .close node reactions => s.close node reactions

/-- After `close`, no connection is under the address that the node had. -/
def Closed (s : RedisMgr) (s' : RedisMgr) : CloseEvent → Prop
  | .redis _ => True
  | .close node _ => ∀ name addr, node = some name → s.addrs.lookup name = some addr →
    s'.conns.lookup (formatAddr addr.1 addr.2) = none

end RedisMgr

/-- The runs of a manager whose nodes are closed. A run that has no meaning goes on without one. -/
def closeMachine : Machine (Option RedisMgr) CloseEvent where
  step s e := s.bind fun s => s.closeStep e

/-! ## The calls of an event -/

namespace RedisMgr

/-- The address that a call looks for a connection to. -/
def target (addrs : FiniteMap Bytes (Bytes × ℤ)) (call : RdsSend) : Option (Bytes × ℤ) :=
  match call.node, call.fn with
  | some node, some _ => if call.argv = [] then none else addrs.lookup node
  | _, _ => none

/-- The key under which a call looks for its connection. -/
def targetKey (addrs : FiniteMap Bytes (Bytes × ℤ)) (call : RdsSend) : Option Bytes :=
  (target addrs call).map fun addr => formatAddr addr.1 addr.2

/-- The call finds its connection closed, and cannot open it again. -/
def Spoils (addrs : FiniteMap Bytes (Bytes × ℤ)) (view : Bytes → Entry) (call : RdsSend) : Prop :=
  ∃ addr, target addrs call = some addr ∧ view (formatAddr addr.1 addr.2) = .closed ∧
    (Openable addr → call.connect = .error ∨ call.connect = .attachFailed)

/-- One of the calls, which are made one after the other, does. -/
def SpoilsIn (addrs : FiniteMap Bytes (Bytes × ℤ)) : (Bytes → Entry) → List RdsSend → Prop
  | _, [] => False
  | view, call :: calls => Spoils addrs view call ∨
    ∃ view', callView addrs view call = some view' ∧ SpoilsIn addrs view' calls

/-- The call opens a connection under the key, if there is none. -/
def Opens (addrs : FiniteMap Bytes (Bytes × ℤ)) (key : Bytes) (call : RdsSend) : Prop :=
  ∃ addr, target addrs call = some addr ∧ formatAddr addr.1 addr.2 = key ∧ Openable addr ∧
    call.connect = .ok

/-- The calls of the callbacks of `n` waiting commands, and of those that the callbacks add to the
list of the connection under the key. -/
def waitingCalls (addrs : FiniteMap Bytes (Bytes × ℤ)) (key : Bytes) :
    ℕ → List (List RdsSend) → List RdsSend
  | 0, _ => []
  | _ + 1, [] => []
  | n + 1, calls :: reactions => calls ++
    waitingCalls addrs key (n + calls.countP fun call => targetKey addrs call = some key) reactions

section Conditions

variable (s : RedisMgr)

/-- The calls of the callbacks while `close` deletes the connection. -/
def closeCalls (node : Option Bytes) (reactions : List (List RdsSend)) : List RdsSend :=
  match node with
  | none => []
  | some key =>
    match (s.conns.lookup key).bind fun c => s.objs[c]? with
    | none => []
    | some obj => waitingCalls s.addrs key obj.waitTasks.length reactions

/-- The events after which a run has no meaning, with those of a node that is closed: its entry
points to a connection that was deleted, or a call of the callbacks finds such a connection, or one
whose context hiredis has no memory for. -/
def CloseHazard : CloseEvent → Prop
  | .redis e => s.Hazard e
  | .close node reactions =>
    (∃ name c obj, node = some name ∧ s.conns.lookup name = some c ∧ s.objs[c]? = some obj ∧
      obj.deleted = true) ∨
    callsView s.addrs s.view (s.closeCalls node reactions) = none

/-- A call, or one of the calls of the callbacks of an event, finds its connection closed and
cannot open it again. -/
def Spoiled : RedisEvent → Prop
  | .send call => SpoilsIn s.addrs s.view [call]
  | .connected k ok accepts reactions =>
    ∃ ctx obj, s.ctxs[k]? = some ctx ∧ ctx.phase = .connecting ∧ s.objs[ctx.data]? = some obj ∧
      SpoilsIn s.addrs (s.viewAt ctx.data (if ok then .active else .unusable))
        (loopCalls ok accepts reactions obj.waitTasks)
  | .reply k reactions =>
    ∃ ctx task, s.ctxs[k]? = some ctx ∧ ctx.pending.head? = some task ∧
      SpoilsIn s.addrs s.view (reactions task.id)
  | .disconnected _ _ => False
  | .destroy _ _ => False

/-- No call finds its connection closed and cannot open it again. A node is closed whose name is
the key of its address, or that has no connection, and the callbacks do not open one. -/
def CloseKeeps : CloseEvent → Prop
  | .redis e => ¬ s.Spoiled e
  | .close node reactions => ¬ SpoilsIn s.addrs s.view (s.closeCalls node reactions) ∧
    ∀ name addr, node = some name → s.addrs.lookup name = some addr →
      formatAddr addr.1 addr.2 = name ∨ s.conns.lookup (formatAddr addr.1 addr.2) = none ∧
        ∀ call ∈ s.closeCalls node reactions, ¬ Opens s.addrs (formatAddr addr.1 addr.2) call

end Conditions

end RedisMgr

/-! ## What the calls leave -/

theorem Entry.connect_eq_unusable (e : Entry) (valid : Bool) (r : ConnectReply) :
    e.connect valid r = some .unusable ↔
      e = .closed ∧ (valid = true → r = .error ∨ r = .attachFailed) := by
  cases e <;> cases valid <;> cases r <;> decide

theorem Entry.connect_eq_absent {e e' : Entry} {valid : Bool} {r : ConnectReply}
    (h : e.connect valid r = some e') :
    e' = .absent ↔ e = .absent ∧ ¬ (valid = true ∧ r = .ok) := by
  cases e <;> cases valid <;> cases r <;> cases h <;> decide

/-- What is under no key cannot be used. -/
theorem Entry.connect_of_unusable {e : Entry} {valid : Bool} {r : ConnectReply}
    (h : Entry.unusable.connect valid r = some e) : False := by
  cases r <;> cases h

namespace RedisMgr

variable {addrs : FiniteMap Bytes (Bytes × ℤ)} {view view' : Bytes → Entry} {call : RdsSend}
  {calls : List RdsSend}

theorem openable_iff (host : Bytes) (port : ℤ) :
    (!(decide (host = []) || decide (port = 0))) = true ↔ Openable (host, port) := by
  simp [Openable]

/-- A call changes what is under its key only. -/
theorem callView_eq_some (h : callView addrs view call = some view') :
    target addrs call = none ∧ view' = view ∨
      ∃ addr e, target addrs call = some addr ∧
        (view (formatAddr addr.1 addr.2)).connect (!(addr.1 = [] || addr.2 = 0)) call.connect =
          some e ∧ view' = Function.update view (formatAddr addr.1 addr.2) e := by
  unfold callView at h
  unfold target
  cases hnode : call.node with
  | none =>
    simp only [hnode] at h
    exact Or.inl ⟨rfl, (Option.some.inj h).symm⟩
  | some node =>
    cases hfn : call.fn with
    | none =>
      simp only [hnode, hfn] at h
      exact Or.inl ⟨rfl, (Option.some.inj h).symm⟩
    | some fn =>
      simp only [hnode, hfn] at h
      dsimp only
      split_ifs at h ⊢ with hargv
      · exact Or.inl ⟨rfl, (Option.some.inj h).symm⟩
      · cases haddr : addrs.lookup node with
        | none =>
          rw [haddr] at h
          exact Or.inl ⟨rfl, (Option.some.inj h).symm⟩
        | some addr =>
          rw [haddr] at h
          obtain ⟨e, he, rfl⟩ := Option.map_eq_some_iff.mp h
          exact Or.inr ⟨addr, e, rfl, he, rfl⟩

/-- **A call spoils an entry** where it finds a closed connection and cannot open it. -/
theorem callView_unusable (h : callView addrs view call = some view') (key : Bytes) :
    view' key = .unusable ↔
      view key = .unusable ∨ Spoils addrs view call ∧ targetKey addrs call = some key := by
  unfold Spoils targetKey
  obtain ⟨htarget, rfl⟩ | ⟨addr, e, htarget, he, rfl⟩ := callView_eq_some h
  · simp [htarget]
  · rw [htarget]
    by_cases hkey : key = formatAddr addr.1 addr.2
    · subst hkey
      rw [Function.update_self]
      have hspoil : e = .unusable ↔ view (formatAddr addr.1 addr.2) = .closed ∧
          (Openable addr → call.connect = .error ∨ call.connect = .attachFailed) := by
        rw [← openable_iff, ← Entry.connect_eq_unusable, he, Option.some.injEq]
      rw [hspoil]
      constructor
      · exact fun hs => Or.inr ⟨⟨addr, rfl, hs⟩, rfl⟩
      · rintro (hold | ⟨⟨addr', haddr', hs⟩, -⟩)
        · rw [hold] at he
          exact (Entry.connect_of_unusable he).elim
        · obtain rfl := Option.some.inj haddr'
          exact hs
    · rw [Function.update_of_ne hkey]
      simp [Ne.symm hkey]

theorem callView_absent (h : callView addrs view call = some view') (key : Bytes) :
    view' key = .absent ↔ view key = .absent ∧ ¬ Opens addrs key call := by
  unfold Opens
  obtain ⟨htarget, rfl⟩ | ⟨addr, e, htarget, he, rfl⟩ := callView_eq_some h
  · simp [htarget]
  · by_cases hkey : key = formatAddr addr.1 addr.2
    · subst hkey
      rw [Function.update_self, Entry.connect_eq_absent he, openable_iff]
      refine and_congr_right fun _ => not_congr ⟨fun hopens => ⟨addr, htarget, rfl, hopens⟩, ?_⟩
      rintro ⟨addr', haddr', -, hopens⟩
      obtain rfl := Option.some.inj (htarget.symm.trans haddr')
      exact hopens
    · rw [Function.update_of_ne hkey]
      refine (and_iff_left ?_).symm
      rintro ⟨addr', haddr', hsame, -⟩
      obtain rfl := Option.some.inj (htarget.symm.trans haddr')
      exact hkey hsame.symm

/-- What cannot be used stays so. -/
theorem callsView_of_unusable (h : callsView addrs view calls = some view') {key : Bytes}
    (hkey : view key = .unusable) : view' key = .unusable := by
  induction calls generalizing view with
  | nil =>
    obtain rfl := Option.some.inj h
    exact hkey
  | cons call calls ih =>
    obtain ⟨view₁, hcall, hcalls⟩ := Option.bind_eq_some_iff.mp h
    exact ih hcalls ((callView_unusable hcall key).mpr (Or.inl hkey))

/-- **Calls spoil an entry** where one of them does. -/
theorem callsView_spoils (h : callsView addrs view calls = some view') :
    SpoilsIn addrs view calls ↔ ∃ key, view' key = .unusable ∧ view key ≠ .unusable := by
  induction calls generalizing view with
  | nil =>
    obtain rfl := Option.some.inj h
    exact iff_of_false id fun ⟨key, hkey, hnot⟩ => hnot hkey
  | cons call calls ih =>
    obtain ⟨view₁, hcall, hcalls⟩ := Option.bind_eq_some_iff.mp h
    constructor
    · rintro (hspoils | ⟨view₂, hview₂, hrest⟩)
      · obtain ⟨addr, htarget, hclosed, -⟩ := id hspoils
        have hkey : targetKey addrs call = some (formatAddr addr.1 addr.2) := by
          rw [targetKey, htarget]
          rfl
        refine ⟨formatAddr addr.1 addr.2, callsView_of_unusable hcalls ?_, ?_⟩
        · exact (callView_unusable hcall _).mpr (Or.inr ⟨hspoils, hkey⟩)
        · rw [hclosed]
          decide
      · obtain rfl := Option.some.inj (hcall.symm.trans hview₂)
        obtain ⟨key, hkey, hnot⟩ := (ih hcalls).mp hrest
        exact ⟨key, hkey, fun hold => hnot ((callView_unusable hcall key).mpr (Or.inl hold))⟩
    · rintro ⟨key, hkey, hnot⟩
      by_cases hmid : view₁ key = .unusable
      · rcases (callView_unusable hcall key).mp hmid with hold | ⟨hspoils, -⟩
        · exact absurd hold hnot
        · exact Or.inl hspoils
      · exact Or.inr ⟨view₁, hcall, (ih hcalls).mpr ⟨key, hkey, hmid⟩⟩

/-- Nothing is under a key after calls where nothing was and no call opened a connection. -/
theorem callsView_absent (h : callsView addrs view calls = some view') (key : Bytes) :
    view' key = .absent ↔ view key = .absent ∧ ∀ call ∈ calls, ¬ Opens addrs key call := by
  induction calls generalizing view with
  | nil =>
    obtain rfl := Option.some.inj h
    simp
  | cons call calls ih =>
    obtain ⟨view₁, hcall, hcalls⟩ := Option.bind_eq_some_iff.mp h
    rw [ih hcalls, callView_absent hcall, List.forall_mem_cons, and_assoc]

/-! ## The events of a manager -/

variable {s s' : RedisMgr}

/-- A connection whose list is not being walked cannot be used when it was deleted. -/
theorem entry_eq_unusable {obj : RdsConnection} (hidle : obj.walking = false) :
    obj.entry = .unusable ↔ obj.deleted = true := by
  unfold RdsConnection.entry
  rw [hidle, Bool.false_and, Bool.or_false]
  split_ifs with hdeleted hclosed
  · exact iff_of_true rfl hdeleted
  · exact iff_of_false (by decide) hdeleted
  · exact iff_of_false (by decide) hdeleted

/-- The entries are live where every call can use what it finds. -/
theorem Settled.live_iff (h : Settled s) : s.Live ↔ ∀ key, s.view key ≠ .unusable := by
  constructor
  · intro hlive key hkey
    cases hconn : s.conns.lookup key with
    | none =>
      unfold RedisMgr.view at hkey
      rw [hconn] at hkey
      cases hkey
    | some c =>
      obtain ⟨obj, hobj, hdeleted⟩ := hlive key c hconn
      rw [view_of_lookup hconn hobj, entry_eq_unusable (h.idle c obj hobj), hdeleted] at hkey
      cases hkey
  · intro hview key c hconn
    obtain ⟨obj, hobj⟩ := h.sound.linked.conns key c hconn
    refine ⟨obj, hobj, ?_⟩
    by_contra hdeleted
    apply hview key
    rw [view_of_lookup hconn hobj, entry_eq_unusable (h.idle c obj hobj)]
    exact (Bool.not_eq_false _).mp hdeleted

/-- What calls do to the table, when no list is being walked. -/
theorem Settled.live_calls (h : Settled s) (hlive : s.Live) (h' : Settled s')
    {calls : List RdsSend} (hview : callsView s.addrs s.view calls = some s'.view) :
    s'.Live ↔ ¬ SpoilsIn s.addrs s.view calls := by
  rw [h'.live_iff, callsView_spoils hview, not_exists]
  refine forall_congr' fun key => ?_
  have hbefore := h.live_iff.mp hlive key
  exact ⟨fun hkey hspoiled => hkey hspoiled.1, fun hkey hspoiled => hkey ⟨hspoiled, hbefore⟩⟩

/-- No call opens a connection whose list is being walked. -/
theorem Got.conns_walked {node : Bytes} {r : Option ℕ} (hgot : Got s node r s') {c : ℕ}
    {obj : RdsConnection} (hobj : s.objs[c]? = some obj) (hwalk : obj.walking = true)
    (key : Bytes) : s'.conns.lookup key = some c ↔ s.conns.lookup key = some c := by
  cases hgot with
  | unknown _ => exact Iff.rfl
  | active _ _ _ _ _ _ _ _ _ => exact Iff.rfl
  | failed _ _ s₁ c' obj' _ hpick _ _ => cases hpick <;> exact Iff.rfl
  | opened host port s₁ c' obj' _ _ hpick _ hidle =>
    have hne : c' ≠ c := by
      rintro rfl
      cases hpick with
      | fresh _ => exact absurd (List.getElem?_eq_some_iff.mp hobj).1 (Nat.lt_irrefl _)
      | closed _ _ _ hobj' _ _ =>
        obtain rfl := Option.some.inj (hobj.symm.trans hobj')
        rw [hwalk] at hidle
        cases hidle
    have hold : s₁.conns = s.conns ∧ s.conns.lookup (formatAddr host port) ≠ some c := by
      cases hpick with
      | fresh hconn => exact ⟨rfl, by rw [hconn]; rintro ⟨⟩⟩
      | closed _ _ hconn _ _ _ =>
        exact ⟨rfl, fun hc => hne (Option.some.inj (hconn.symm.trans hc))⟩
    rw [FiniteMap.lookup_insert, hold.1]
    split_ifs with hkey
    · rw [hkey]
      exact iff_of_false (fun hc => hne (Option.some.inj hc)) hold.2
    · rfl

theorem ConnSent.conns_eq {c : ℕ} {task : RdsTask} {b : Bool} (hsent : ConnSent s c task b s') :
    s'.conns = s.conns := by
  cases hsent <;> rfl

theorem Sent.conns_walked {b : Bool} (hsent : Sent s call b s') {c : ℕ} {obj : RdsConnection}
    (hobj : s.objs[c]? = some obj) (hwalk : obj.walking = true) (key : Bytes) :
    s'.conns.lookup key = some c ↔ s.conns.lookup key = some c := by
  have hobj' : ({ s with nextSend := s.nextSend + 1 } : RedisMgr).objs[c]? = some obj := hobj
  cases hsent with
  | invalid => exact Iff.rfl
  | refused node s' hgot => exact hgot.conns_walked hobj' hwalk key
  | answered node fn c' b s₁ s₂ hgot hconn =>
    change s₂.conns.lookup key = some c ↔ _
    rw [hconn.conns_eq]
    exact hgot.conns_walked hobj' hwalk key

theorem Linked.runSends_conns (h : Linked s) {calls : List RdsSend}
    (hrun : s.runSends calls = some s') {c : ℕ} {obj : RdsConnection}
    (hobj : s.objs[c]? = some obj) (hwalk : obj.walking = true) (key : Bytes) :
    s'.conns.lookup key = some c ↔ s.conns.lookup key = some c := by
  induction calls generalizing s with
  | nil =>
    cases hrun
    rfl
  | cons call calls ih =>
    unfold RedisMgr.runSends at hrun
    split at hrun
    · cases hrun
    · next b s₁ hsend =>
      have hsent := sent_of_sendTo hsend
      have hkept := (Framed.of_sent hsent).kept c obj hobj hwalk
      exact (ih (h.sent hsent) hrun hkept).trans (hsent.conns_walked hobj hwalk key)

/-- The loop over the waiting commands of a connection leaves its entry alone. -/
theorem Linked.walk_conns {c : ℕ} {obj : RdsConnection} {ok : Bool} {accepts : ℕ → Bool}
    {reactions : ℕ → List RdsSend} {tasks : List RdsTask} (h : Linked s)
    (hobj : s.objs[c]? = some obj) (hwalk : obj.walking = true)
    (hrun : walk c ok accepts reactions s tasks = some s') (key : Bytes) :
    s'.conns.lookup key = some c ↔ s.conns.lookup key = some c := by
  induction tasks generalizing s obj with
  | nil =>
    cases hrun
    rfl
  | cons task tasks ih =>
    obtain ⟨s₁, hturn, hrest⟩ := walk_cons_cases hrun
    have hlinked := h.passed hobj hwalk task tasks
    have hself := getElem?_setObj_self hobj fun obj =>
      { obj with waitTasks := tasks, settled := obj.settled ++ [task.id] }
    have hturn' : Linked s₁ ∧ Framed (s.passed c task tasks) s₁ ∧
        (s₁.conns.lookup key = some c ↔ s.conns.lookup key = some c) := by
      rcases hturn with ⟨-, hsent⟩ | hinvoke
      · exact ⟨hlinked.conn_sent hsent, .of_connSent hsent, by rw [hsent.conns_eq]; rfl⟩
      · have hcalled : Linked { s.passed c task tasks with called := s.called ++ [task.id] } :=
          hlinked.of_fields rfl rfl rfl
        have hstart : Framed (s.passed c task tasks)
            { s.passed c task tasks with called := s.called ++ [task.id] } := .of_objs rfl rfl
        obtain ⟨hlinked₁, hframed⟩ := hcalled.runSends hinvoke
        exact ⟨hlinked₁, hstart.trans hframed, hcalled.runSends_conns hinvoke hself hwalk key⟩
    obtain ⟨hlinked₁, hframed, hconns⟩ := hturn'
    exact (ih hlinked₁ (hframed.kept c _ hself hwalk) hwalk hrest).trans hconns

/-- **The connect callback** and the table: the connection itself is left as it is. -/
theorem Settled.live_onConnectCallback (h : Settled s) (hlive : s.Live) {k : ℕ} {ctx : RedisCtx}
    {obj : RdsConnection} {ok : Bool} {accepts : ℕ → Bool} {reactions : ℕ → List RdsSend}
    (hobj : s.objs[ctx.data]? = some obj) (hk : obj.ctx = some k) (hopen : obj.state ≠ .closed)
    (hdeleted : obj.deleted = false)
    (hrun : (s.setPhase k (if ok then .connected else .gone)).onConnectCallback ctx.data ok accepts
      reactions = some s') :
    s'.Live ↔ ¬ SpoilsIn s.addrs (s.viewAt ctx.data (if ok then .active else .unusable))
      (loopCalls ok accepts reactions obj.waitTasks) := by
  have hsettled : Settled s' := h.onConnectCallback hobj hk hopen hdeleted hrun
  obtain ⟨obj', s₁, hobj', -, hwalk, rfl⟩ := onConnectCallback_cases hrun
  obtain rfl : obj = obj' := Option.some.inj (hobj.symm.trans hobj')
  have hsound := h.onConnect hobj hk hopen hdeleted ok
  have hself := getElem?_setObj_self (s := s.setPhase k (if ok then .connected else .gone)) hobj
    (.onConnect ok)
  have hwalking : (obj.onConnect ok).walking = true := by cases ok <;> rfl
  have hentry : (obj.onConnect ok).entry = if ok then .active else .unusable := by
    cases ok <;> simp only [RdsConnection.onConnect, RdsConnection.entry, hdeleted] <;> rfl
  -- What the calls of the loop leave, and the entry of the connection itself.
  have hview : (walk ctx.data ok accepts reactions
      ((s.setPhase k (if ok then .connected else .gone)).setObj ctx.data (.onConnect ok))
      obj.waitTasks).map view = _ :=
    hsound.linked.walk_view hself hwalking (fun hok => by rw [hok]; rfl) obj.waitTasks
  rw [hwalk, view_setObj_eq (s := s.setPhase k _) hobj, hentry] at hview
  have hconns : ∀ key, s₁.conns.lookup key = some ctx.data ↔ s.conns.lookup key = some ctx.data :=
    hsound.linked.walk_conns hself hwalking hwalk
  obtain ⟨settled, hown⟩ := (hsound.walk hself hwalking (by cases ok <;> rfl) hwalk).own
  have hstart : SpoilsIn s.addrs (s.viewAt ctx.data (if ok then .active else .unusable))
      (loopCalls ok accepts reactions obj.waitTasks) ↔ ∃ key, s₁.view key = .unusable ∧
        s.viewAt ctx.data (if ok then .active else .unusable) key ≠ .unusable :=
    callsView_spoils hview.symm
  rw [hsettled.live_iff, hstart, not_exists]
  refine forall_congr' fun key => ?_
  have hbefore := h.live_iff.mp hlive key
  rw [view_setObj_eq hown]
  unfold viewAt
  by_cases hkey : s₁.conns.lookup key = some ctx.data
  · rw [if_pos hkey, if_pos ((hconns key).mp hkey)]
    refine iff_of_true ?_ ?_
    · rw [Ne, entry_eq_unusable rfl]
      cases ok <;> simpa [RdsConnection.onConnect] using hdeleted
    · rintro ⟨hspoiled, hnot⟩
      cases ok with
      | false => exact hnot rfl
      | true =>
        rw [view_of_lookup hkey hown] at hspoiled
        simp [RdsConnection.onConnect, RdsConnection.entry, hdeleted] at hspoiled
  · rw [if_neg hkey, if_neg fun hc => hkey ((hconns key).mpr hc)]
    exact ⟨fun hview hspoiled => hview hspoiled.1, fun hnot hview => hnot ⟨hview, hbefore⟩⟩

theorem Settled.live_onConnected (h : Settled s) (hlive : s.Live) {k : ℕ} {ok : Bool}
    {accepts : ℕ → Bool} {reactions : ℕ → List RdsSend}
    (hrun : s.onConnected k ok accepts reactions = some s') :
    s'.Live ↔ ¬ s.Spoiled (.connected k ok accepts reactions) := by
  unfold RedisMgr.onConnected at hrun
  cases hctx : s.ctxs[k]? with
  | none =>
    simp only [hctx] at hrun
    cases hrun
    refine iff_of_true hlive ?_
    rintro ⟨_, _, hctx', -⟩
    rw [hctx] at hctx'
    cases hctx'
  | some ctx =>
    simp only [hctx] at hrun
    by_cases hphase : ctx.phase = .connecting
    · rw [if_pos hphase] at hrun
      obtain ⟨obj, hobj, hk, hopen, hdeleted, -⟩ := h.sound.linked.owner hctx (Or.inl hphase)
      rw [h.live_onConnectCallback hlive hobj hk hopen hdeleted hrun]
      refine not_congr ⟨fun hspoils => ⟨ctx, obj, hctx, hphase, hobj, hspoils⟩, ?_⟩
      rintro ⟨ctx', obj', hctx', -, hobj', hspoils⟩
      obtain rfl := Option.some.inj (hctx.symm.trans hctx')
      obtain rfl := Option.some.inj (hobj.symm.trans hobj')
      exact hspoils
    · rw [if_neg hphase] at hrun
      cases hrun
      refine iff_of_true hlive ?_
      rintro ⟨ctx', -, hctx', hphase', -⟩
      obtain rfl := Option.some.inj (hctx.symm.trans hctx')
      exact hphase hphase'

theorem Settled.live_onReply (h : Settled s) (hlive : s.Live) {k : ℕ} {reactions : ℕ → List RdsSend}
    (hrun : s.onReply k reactions = some s') : s'.Live ↔ ¬ s.Spoiled (.reply k reactions) := by
  have hsettled := h.onReply hrun
  unfold RedisMgr.onReply at hrun
  cases hctx : s.ctxs[k]? with
  | none =>
    simp only [hctx] at hrun
    cases hrun
    refine iff_of_true hlive ?_
    rintro ⟨_, _, hctx', -⟩
    rw [hctx] at hctx'
    cases hctx'
  | some ctx =>
    simp only [hctx] at hrun
    cases hpending : ctx.pending with
    | nil =>
      rw [hpending] at hrun
      cases hrun
      refine iff_of_true hlive ?_
      rintro ⟨ctx', task, hctx', hhead, -⟩
      obtain rfl := Option.some.inj (hctx.symm.trans hctx')
      rw [hpending] at hhead
      cases hhead
    | cons task tasks =>
      rw [hpending] at hrun
      have hlinked : Linked { s.setCtx k fun ctx => { ctx with pending := tasks } with
          called := s.called ++ [task.id] } :=
        Linked.of_fields (h.reply hctx hpending).linked rfl rfl rfl
      have hview : (some s').map view = callsView s.addrs s.view (reactions task.id) :=
        (congrArg (Option.map view) hrun).symm.trans (hlinked.runSends_view (reactions task.id))
      rw [h.live_calls hlive hsettled hview.symm]
      refine not_congr ⟨fun hspoils => ⟨ctx, task, hctx, by rw [hpending]; rfl, hspoils⟩, ?_⟩
      rintro ⟨ctx', task', hctx', hhead, hspoils⟩
      obtain rfl := Option.some.inj (hctx.symm.trans hctx')
      rw [hpending] at hhead
      obtain rfl := Option.some.inj hhead
      exact hspoils

/-- No command waits in a connection that was connected, so its end makes no calls. -/
theorem Settled.live_onDisconnected (h : Settled s) (hlive : s.Live) {k : ℕ}
    {reactions : ℕ → List RdsSend} (hrun : s.onDisconnected k reactions = some s') : s'.Live := by
  unfold RedisMgr.onDisconnected at hrun
  cases hctx : s.ctxs[k]? with
  | none =>
    simp only [hctx] at hrun
    cases hrun
    exact hlive
  | some ctx =>
    simp only [hctx] at hrun
    by_cases hpending : ctx.pending = []
    · rw [if_neg (not_not.mpr hpending)] at hrun
      cases hphase : ctx.phase with
      | connecting =>
        simp only [hphase] at hrun
        cases hrun
        exact hlive
      | gone =>
        simp only [hphase] at hrun
        cases hrun
        exact hlive
      | connected =>
        simp only [hphase] at hrun
        obtain ⟨obj, hobj, hk, hopen, hdeleted, hstate⟩ :=
          h.sound.linked.owner hctx (Or.inr hphase)
        have hconnecting : obj.state ≠ .connecting := by
          intro hconnecting
          rw [hphase, hconnecting] at hstate
          cases hstate
        have hempty := h.sound.linked.waits _ obj hobj hconnecting (h.idle _ obj hobj)
        have hrun' : (s.setPhase k (if false then .connected else .gone)).onConnectCallback
            ctx.data false (fun _ => false) reactions = some s' := hrun
        rw [h.live_onConnectCallback hlive hobj hk hopen hdeleted hrun', hempty]
        exact not_false
      | disconnecting =>
        simp only [hphase, h.disconnecting hctx hphase] at hrun
        cases hrun
    · rw [if_pos hpending] at hrun
      cases hrun
      exact hlive

/-- **An event spoils an entry** exactly where one of its calls does. -/
theorem Settled.live_step (h : Settled s) (hlive : s.Live) {e : RedisEvent}
    (hrun : s.step e = some s') : s'.Live ↔ ¬ s.Spoiled e := by
  cases e with
  | send call =>
    have hsettled := h.step hrun
    obtain ⟨⟨b, s₁⟩, hsend, rfl⟩ := Option.map_eq_some_iff.mp hrun
    have hview := h.sound.linked.runSends_view [call]
    have hruns : s.runSends [call] = some s₁ := by
      unfold runSends
      rw [hsend]
      rfl
    rw [hruns] at hview
    exact h.live_calls hlive hsettled hview.symm
  | connected k ok accepts reactions => exact h.live_onConnected hlive hrun
  | reply k reactions => exact h.live_onReply hlive hrun
  | disconnected k reactions => exact iff_of_true (h.live_onDisconnected hlive hrun) not_false
  | destroy entries reactions =>
    refine iff_of_true ?_ not_false
    change s.delete entries reactions = some s' at hrun
    unfold RedisMgr.delete at hrun
    split_ifs at hrun
    · obtain ⟨s₁, -, rfl⟩ := Option.map_eq_some_iff.mp hrun
      exact fun key c hc => by simp at hc
    · cases hrun
      exact hlive

/-! ## The commands that wait while a connection is deleted -/

/-- A call that looks for no connection, or one that gets a connection or is refused. -/
theorem sendTo_target {b : Bool} (hsend : s.sendTo call = some (b, s')) :
    target s.addrs call = none ∧ s' = { s with nextSend := s.nextSend + 1 } ∨
      ∃ node addr r s₁, target s.addrs call = some addr ∧ s.addrs.lookup node = some addr ∧
        call.argv ≠ [] ∧ Got { s with nextSend := s.nextSend + 1 } node r s₁ ∧
        (r = none ∧ s' = s₁ ∨ ∃ c task s₂, r = some c ∧ task.argv = call.argv ∧
          connSendTo { s₁ with got := s₁.got ++ [(node, (s₁.objs[c]?).bind RdsConnection.addr)] }
            c task call.accepts = some (b, s₂) ∧ s'.objs = s₂.objs ∧ s'.conns = s₂.conns) := by
  unfold sendTo at hsend
  unfold target
  cases hnode : call.node with
  | none =>
    simp only [hnode] at hsend
    cases hsend
    exact Or.inl ⟨rfl, rfl⟩
  | some node =>
    cases hfn : call.fn with
    | none =>
      simp only [hnode, hfn] at hsend
      cases hsend
      exact Or.inl ⟨rfl, rfl⟩
    | some fn =>
      simp only [hnode, hfn] at hsend
      dsimp only
      split_ifs at hsend ⊢ with hargv
      · cases hsend
        exact Or.inl ⟨rfl, rfl⟩
      · cases hget : getConn { s with nextSend := s.nextSend + 1 } node call.connect with
        | none =>
          simp only [hget] at hsend
          cases hsend
        | some p =>
          -- the connection that was found, or none
          obtain ⟨r, s₁⟩ := p
          have hgot := got_of_getConn hget
          cases haddr : s.addrs.lookup node with
          | none =>
            have hsame : r = none ∧ s₁ = { s with nextSend := s.nextSend + 1 } := by
              simp only [getConn, haddr] at hget
              cases hget
              exact ⟨rfl, rfl⟩
            obtain ⟨rfl, rfl⟩ := hsame
            simp only [hget] at hsend
            cases hsend
            exact Or.inl ⟨rfl, rfl⟩
          | some addr =>
            refine Or.inr ⟨node, addr, r, s₁, rfl, haddr, hargv, hgot, ?_⟩
            cases r with
            | none =>
              simp only [hget] at hsend
              cases hsend
              exact Or.inl ⟨rfl, rfl⟩
            | some c =>
              simp only [hget] at hsend
              split at hsend
              · cases hsend
              · next s₂ hconn =>
                cases hsend
                exact Or.inr ⟨c, _, _, rfl, rfl, hconn, rfl, rfl⟩
              · next s₂ hconn =>
                cases hsend
                exact Or.inr ⟨c, _, _, rfl, rfl, hconn, rfl, rfl⟩

/-- An open connection under its key, which is being deleted. -/
structure Deleting (s : RedisMgr) (key : Bytes) (c k : ℕ) (obj : RdsConnection) : Prop where
  settled : Settled s
  conn : s.conns.lookup key = some c
  found : s.objs[c]? = some obj
  ctx : obj.ctx = some k

variable {key : Bytes} {c k : ℕ} {obj : RdsConnection}

theorem Deleting.opened (h : Deleting s key c k obj) : obj.state ≠ .closed := by
  intro hclosed
  have hctx := h.ctx
  rw [h.settled.sound.linked.closed c obj h.found hclosed] at hctx
  cases hctx

/-- Giving a command to another connection. -/
theorem ConnSent.other {c' : ℕ} {task : RdsTask} {b : Bool} (hsent : ConnSent s c' task b s')
    (hne : c' ≠ c) : s'.objs[c]? = s.objs[c]? := by
  cases hsent with
  | refused => rfl
  | waits _ _ _ _ => exact getElem?_setObj_of_ne hne s _
  | sent _ _ _ _ _ => rfl

/-- A connection that is being set up is not picked to be connected. -/
theorem Deleting.picked (h : Deleting s key c k obj) {key' : Bytes} {s₁ : RedisMgr} {c' : ℕ}
    {obj' : RdsConnection} (hpick : Picked s key' s₁ c' obj') :
    c' ≠ c ∧ key' ≠ key ∧ s₁.objs[c]? = some obj ∧ s₁.conns = s.conns := by
  cases hpick with
  | fresh hconn =>
    refine ⟨fun hc => ?_, ?_, Heap.getElem?_snoc_of_some h.found _, rfl⟩
    · have hlt := (List.getElem?_eq_some_iff.mp h.found).1
      omega
    · rintro rfl
      have hconn' := h.conn
      rw [hconn] at hconn'
      cases hconn'
  | closed _ _ hconn hobj' _ hactive =>
    have hne : c' ≠ c := by
      rintro rfl
      obtain rfl := Option.some.inj (h.found.symm.trans hobj')
      rw [RdsConnection.isActive_iff.mpr h.opened] at hactive
      cases hactive
    refine ⟨hne, ?_, h.found, rfl⟩
    rintro rfl
    exact hne (Option.some.inj (hconn.symm.trans h.conn))

/-- A command that is sent to a connection that is being set up waits. -/
theorem Deleting.waits (h : Deleting s key c k obj) (hstate : obj.state = .connecting)
    {s₁ s₂ : RedisMgr} {task : RdsTask} {accepts b : Bool}
    (hsent : s₁.connSendTo c task accepts = some (b, s₂)) (hobjs : s₁.objs = s.objs)
    (hargv : task.argv ≠ []) :
    s₂.conns = s₁.conns ∧ s₂.objs[c]? = some { obj with
      waitTasks := obj.waitTasks ++ [task], queued := obj.queued ++ [task.id] } := by
  have hidle := h.settled.idle c obj h.found
  have hfound : s₁.objs[c]? = some obj := hobjs ▸ h.found
  unfold connSendTo at hsent
  simp only [hfound, h.ctx, hstate, if_neg hargv, hidle, Bool.false_eq_true, if_false] at hsent
  cases hsent
  exact ⟨rfl, getElem?_setObj_self hfound _⟩

/-- **A call while a connection is deleted**: the command waits where the call looks for this
connection, and the connection is left alone where it does not. -/
theorem Deleting.sent (h : Deleting s key c k obj) (hstate : obj.state = .connecting) {b : Bool}
    (hsend : s.sendTo call = some (b, s')) :
    ∃ obj', Deleting s' key c k obj' ∧ obj'.state = .connecting ∧ obj'.waitTasks.length =
      obj.waitTasks.length + if targetKey s.addrs call = some key then 1 else 0 := by
  have hsettled := h.settled.sent hsend
  have hsame : s'.objs[c]? = some obj → s'.conns.lookup key = some c →
      targetKey s.addrs call ≠ some key → ∃ obj', Deleting s' key c k obj' ∧
        obj'.state = .connecting ∧ obj'.waitTasks.length =
          obj.waitTasks.length + if targetKey s.addrs call = some key then 1 else 0 := by
    intro hobj hconn hkey
    exact ⟨obj, ⟨hsettled, hconn, hobj, h.ctx⟩, hstate, by rw [if_neg hkey, Nat.add_zero]⟩
  obtain ⟨htarget, rfl⟩ | ⟨node, ⟨host, port⟩, r, s₁, htarget, haddr, hargv, hgot, hrest⟩ :=
    sendTo_target hsend
  · exact hsame h.found h.conn (by simp [targetKey, htarget])
  have hkey : targetKey s.addrs call = some (formatAddr host port) := by
    rw [targetKey, htarget]
    rfl
  have hcounted : Deleting { s with nextSend := s.nextSend + 1 } key c k obj :=
    ⟨⟨⟨h.settled.sound.linked.of_fields rfl rfl rfl,
      h.settled.sound.accounted.of_fields rfl rfl rfl, h.settled.sound.numbered.distinct,
      fun id hid => Nat.lt_succ_of_lt (h.settled.sound.numbered.fresh id hid)⟩, h.settled.idle⟩,
      h.conn, h.found, h.ctx⟩
  cases hgot with
  | unknown hnone =>
    change s.addrs.lookup node = none at hnone
    rw [haddr] at hnone
    cases hnone
  | active host' port' c' obj' haddr' hconn hobj _ hactive =>
    obtain ⟨rfl, rfl⟩ := Prod.mk.inj (Option.some.inj (haddr.symm.trans haddr'))
    obtain ⟨⟨⟩, -⟩ | ⟨c', task, s₂, ⟨⟩, hsame', hconn', hobjs, hconns⟩ := hrest
    by_cases hc : c' = c
    · subst hc
      -- The call looks under the key of this connection: no other has it.
      have hown : formatAddr host port = key :=
        h.settled.sound.linked.inj _ _ c' hconn h.conn
      obtain ⟨hconns₂, hobj₂⟩ := h.waits hstate hconn' rfl (hsame' ▸ hargv)
      refine ⟨{ obj with waitTasks := obj.waitTasks ++ [task], queued := obj.queued ++ [task.id] },
        ⟨hsettled, ?_, hobjs ▸ hobj₂, h.ctx⟩, hstate, ?_⟩
      · rw [hconns, hconns₂]
        exact h.conn
      · rw [hkey, if_pos (congrArg some hown), List.length_append, List.length_singleton]
    · have hsent := connSent_of_connSendTo hconn'
      refine hsame ?_ ?_ ?_
      · rw [hobjs, hsent.other hc]
        exact h.found
      · rw [hconns, hsent.conns_eq]
        exact h.conn
      · rw [hkey]
        intro hown
        obtain rfl := Option.some.inj hown
        exact hc (Option.some.inj (hconn.symm.trans h.conn))
  | failed host' port' s₁ c' obj' haddr' hpick _ _ =>
    obtain ⟨rfl, rfl⟩ := Prod.mk.inj (Option.some.inj (haddr.symm.trans haddr'))
    obtain ⟨hne, hnot, hobj, hconns⟩ := hcounted.picked hpick
    obtain ⟨-, rfl⟩ | ⟨_, _, _, ⟨⟩, -⟩ := hrest
    refine hsame ((getElem?_setObj_of_ne hne s₁ _).trans hobj) (hconns ▸ h.conn) ?_
    rw [hkey]
    exact fun hown => hnot (Option.some.inj hown)
  | opened host' port' s₁ c' obj' haddr' _ hpick _ _ =>
    obtain ⟨rfl, rfl⟩ := Prod.mk.inj (Option.some.inj (haddr.symm.trans haddr'))
    obtain ⟨hne, hnot, hobj, hconns⟩ := hcounted.picked hpick
    obtain ⟨⟨⟩, -⟩ | ⟨c', task, s₂, ⟨⟩, -, hconn', hobjs, hconns'⟩ := hrest
    have hsent := connSent_of_connSendTo hconn'
    refine hsame ?_ ?_ ?_
    · rw [hobjs, hsent.other hne]
      exact (getElem?_setObj_of_ne hne s₁ _).trans hobj
    · rw [hconns', hsent.conns_eq, FiniteMap.lookup_insert, if_neg (Ne.symm hnot), hconns]
      exact h.conn
    · rw [hkey]
      exact fun hown => hnot (Option.some.inj hown)

theorem Deleting.runSends (h : Deleting s key c k obj) (hstate : obj.state = .connecting)
    (hrun : s.runSends calls = some s') :
    ∃ obj', Deleting s' key c k obj' ∧ obj'.state = .connecting ∧ obj'.waitTasks.length =
      obj.waitTasks.length + calls.countP fun call => targetKey s.addrs call = some key := by
  induction calls generalizing s obj with
  | nil =>
    cases hrun
    exact ⟨obj, h, hstate, rfl⟩
  | cons call calls ih =>
    unfold RedisMgr.runSends at hrun
    split at hrun
    · cases hrun
    · next b s₁ hsend =>
      obtain ⟨obj₁, h₁, hstate₁, hlength₁⟩ := h.sent hstate hsend
      obtain ⟨obj', h', hstate', hlength⟩ := ih h₁ hstate₁ hrun
      refine ⟨obj', h', hstate', ?_⟩
      rw [hlength, hlength₁, (Framed.of_sent (sent_of_sendTo hsend)).addrs, List.countP_cons]
      simp only [decide_eq_true_eq]
      omega

/-- The loop takes a command, and calls its callback. -/
theorem Deleting.passed (h : Deleting s key c k obj) (hstate : obj.state = .connecting)
    {task : RdsTask} {tasks : List RdsTask} (htasks : obj.waitTasks = task :: tasks) :
    Deleting { s.passed c task tasks with called := s.called ++ [task.id] } key c k
      { obj with waitTasks := tasks, settled := obj.settled ++ [task.id] } := by
  have hheld : Holding task.id (s.passed c task tasks) := by
    refine ⟨h.settled.sound.linked.setObj fun obj' hobj' => ?_,
      h.settled.sound.accounted.passed h.found htasks, h.settled.sound.numbered.distinct,
      h.settled.sound.numbered.fresh⟩
    obtain rfl := Option.some.inj (h.found.symm.trans hobj')
    exact ⟨rfl, rfl, fun _ => rfl, id, fun hnot => absurd hstate hnot⟩
  have hcalled : (s.passed c task tasks).invoke task (fun _ => []) =
    some { s.passed c task tasks with called := s.called ++ [task.id] } := rfl
  refine ⟨⟨(hheld.invoke hcalled).1, fun i o ho => ?_⟩, h.conn,
    getElem?_setObj_self h.found _, h.ctx⟩
  rcases Heap.getElem?_modify_cases ho with ⟨rfl, o', ho', rfl⟩ | ⟨-, hold⟩
  · exact h.settled.idle c o' ho'
  · exact h.settled.idle i o hold

/-- Commands wait for a connection that is being set up only. -/
theorem Deleting.connecting (h : Deleting s key c k obj) {task : RdsTask} {tasks : List RdsTask}
    (htasks : obj.waitTasks = task :: tasks) : obj.state = .connecting := by
  by_contra hstate
  rw [h.settled.sound.linked.waits c obj h.found hstate (h.settled.idle c obj h.found)] at htasks
  cases htasks

theorem Deleting.waited (h : Deleting s key c k obj) (hstate : obj.state = .connected) :
    obj.waitTasks = [] :=
  h.settled.sound.linked.waits c obj h.found (by rw [hstate]; decide) (h.settled.idle c obj h.found)

/-- What the calls of the callback find. -/
theorem Deleting.callsView_passed (h : Deleting s key c k obj) {task : RdsTask}
    {tasks : List RdsTask} (htasks : obj.waitTasks = task :: tasks) (calls : List RdsSend) :
    callsView s.addrs s.view calls =
      (RedisMgr.runSends { s.passed c task tasks with called := s.called ++ [task.id] }
        calls).map RedisMgr.view := by
  have hpassed := h.passed (h.connecting htasks) htasks
  have hset : (s.passed c task tasks).view = s.view := view_setObj_same fun _ _ => rfl
  have hstart : view { s.passed c task tasks with called := s.called ++ [task.id] } = s.view :=
    hset
  rw [hpassed.settled.sound.linked.runSends_view calls, hstart]
  rfl

/-- The callbacks of all the commands that wait. -/
theorem Deleting.failRest (h : Deleting s key c k obj) :
    Deleting (s.failRest c) key c k { obj with
      waitTasks := [], settled := obj.settled ++ obj.waitTasks.map RdsTask.id } := by
  have heq : s.failRest c =
      { s.setObj c fun obj => { obj with
          waitTasks := []
          settled := obj.settled ++ obj.waitTasks.map RdsTask.id } with
        called := s.called ++ obj.waitTasks.map RdsTask.id } := by
    unfold RedisMgr.failRest
    rw [h.found]
  rw [heq]
  refine ⟨⟨⟨?_, ⟨?_, fun i o ho => ?_⟩, h.settled.sound.numbered.distinct,
    h.settled.sound.numbered.fresh⟩, fun i o ho => ?_⟩, h.conn, getElem?_setObj_self h.found _,
    h.ctx⟩
  · refine (h.settled.sound.linked.setObj fun obj' _ => ?_).of_fields rfl rfl rfl
    exact ⟨rfl, rfl, fun _ => rfl, id, fun _ _ => rfl⟩
  · -- The commands of the list move to those that were called back.
    have honce : (s.called ++ (s.waiting ++ s.pending)).Perm s.accepted :=
      h.settled.sound.accounted.once
    have hmoved := Heap.flatMap_modify_remove h.found (m := obj.waitTasks.map RdsTask.id)
      (f := fun obj => { obj with
        waitTasks := [], settled := obj.settled ++ obj.waitTasks.map RdsTask.id })
      (g := fun obj => obj.waitTasks.map RdsTask.id) (List.append_nil _).symm
    refine List.Perm.trans ?_ ((List.Perm.append_left s.called
      (List.Perm.append_right s.pending hmoved)).trans honce)
    refine List.Perm.of_eq ?_
    rw [List.nil_append, List.append_assoc, List.append_assoc]
    rfl
  · rcases Heap.getElem?_modify_cases ho with ⟨rfl, o', ho', rfl⟩ | ⟨-, hold⟩
    · rw [h.settled.sound.accounted.inOrder c o' ho']
      exact (List.append_nil _).symm
    · exact h.settled.sound.accounted.inOrder i o hold
  · rcases Heap.getElem?_modify_cases ho with ⟨rfl, o', ho', rfl⟩ | ⟨-, hold⟩
    · exact h.settled.idle c o' ho'
    · exact h.settled.idle i o hold

theorem failRest_view (s : RedisMgr) (c : ℕ) : (s.failRest c).view = s.view := by
  have hset : (s.setObj c fun obj => { obj with
      waitTasks := []
      settled := obj.settled ++ obj.waitTasks.map RdsTask.id }).view = s.view :=
    view_setObj_same fun _ _ => rfl
  unfold failRest
  cases s.objs[c]? with
  | none => rfl
  | some obj => exact hset

theorem failRest_addrs (s : RedisMgr) (c : ℕ) : (s.failRest c).addrs = s.addrs := by
  unfold failRest
  cases s.objs[c]? <;> rfl

theorem callsView_nil (addrs : FiniteMap Bytes (Bytes × ℤ)) (view : Bytes → Entry) (n : ℕ)
    (key : Bytes) : callsView addrs view (waitingCalls addrs key n []) = some view := by
  cases n <;> rfl

/-- **The loop over the waiting commands** empties the list, whatever the callbacks add to it. -/
theorem Deleting.failWaiting (h : Deleting s key c k obj) {reactions : List (List RdsSend)}
    (hrun : failWaiting c s reactions = some s') :
    ∃ obj', Deleting s' key c k obj' ∧ obj'.state = obj.state ∧ obj'.waitTasks = [] ∧
      s'.addrs = s.addrs ∧
      callsView s.addrs s.view (waitingCalls s.addrs key obj.waitTasks.length reactions) =
        some s'.view := by
  induction reactions generalizing s obj with
  | nil =>
    cases hrun
    refine ⟨_, h.failRest, rfl, rfl, failRest_addrs s c, ?_⟩
    rw [callsView_nil, failRest_view]
  | cons calls reactions ih =>
    unfold RedisMgr.failWaiting at hrun
    simp only [h.found] at hrun
    cases htasks : obj.waitTasks with
    | nil =>
      rw [htasks] at hrun
      cases hrun
      exact ⟨obj, h, rfl, htasks, rfl, rfl⟩
    | cons task tasks =>
      rw [htasks] at hrun
      have hstate := h.connecting htasks
      have hpassed := h.passed hstate htasks
      dsimp only at hrun
      split at hrun
      · cases hrun
      · next s₁ hcalls =>
        obtain ⟨obj₁, h₁, hstate₁, hlength⟩ := hpassed.runSends hstate hcalls
        obtain ⟨obj', h', hstate', hempty, haddrs, hview⟩ := ih h₁ hrun
        have hframed := (hpassed.settled.sound.linked.runSends hcalls).2
        have hmid := h.callsView_passed htasks calls
        rw [hcalls] at hmid
        refine ⟨obj', h', (hstate'.trans hstate₁).trans hstate.symm, hempty,
          haddrs.trans hframed.addrs, ?_⟩
        rw [List.length_cons, waitingCalls, callsView_append]
        rw [hlength, hframed.addrs] at hview
        rw [hmid, Option.map_some, Option.bind_some]
        exact hview

/-- The loop has no meaning where the calls of the callbacks have none. -/
theorem Deleting.failWaiting_eq_none (h : Deleting s key c k obj)
    (reactions : List (List RdsSend)) :
    RedisMgr.failWaiting c s reactions = none ↔
      callsView s.addrs s.view (waitingCalls s.addrs key obj.waitTasks.length reactions) =
        none := by
  induction reactions generalizing s obj with
  | nil => exact iff_of_false (by rintro ⟨⟩) (by rw [callsView_nil]; rintro ⟨⟩)
  | cons calls reactions ih =>
    unfold RedisMgr.failWaiting
    simp only [h.found]
    cases htasks : obj.waitTasks with
    | nil => exact iff_of_false (by rintro ⟨⟩) (by rintro ⟨⟩)
    | cons task tasks =>
      have hstate := h.connecting htasks
      have hpassed := h.passed hstate htasks
      rw [List.length_cons, waitingCalls, callsView_append, h.callsView_passed htasks]
      dsimp only
      split
      · next hnone => simp [hnone]
      · next s₁ hcalls =>
        -- the list goes on with what the calls of the first callback added to it
        obtain ⟨obj₁, h₁, hstate₁, hlength⟩ := hpassed.runSends hstate hcalls
        have hframed := (hpassed.settled.sound.linked.runSends hcalls).2
        have hrest := ih h₁
        rw [hlength, hframed.addrs] at hrest
        rw [hcalls, Option.map_some, Option.bind_some]
        exact hrest

/-! ## Closing -/

/-- A connection without a context is closed, and nothing waits in it. -/
theorem Settled.without_ctx (h : Settled s) (hobj : s.objs[c]? = some obj) (hk : obj.ctx = none) :
    obj.state = .closed ∧ obj.waitTasks = [] := by
  have hclosed : obj.state = .closed := by
    by_contra hopen
    obtain ⟨-, k, -, hk', -⟩ := h.sound.linked.active c obj hobj hopen
    rw [hk] at hk'
    cases hk'
  exact ⟨hclosed, h.sound.linked.waits c obj hobj (by rw [hclosed]; decide) (h.idle c obj hobj)⟩

theorem closeCalls_of_conn (hconn : s.conns.lookup key = some c) (hobj : s.objs[c]? = some obj)
    (reactions : List (List RdsSend)) : s.closeCalls (some key) reactions =
      waitingCalls s.addrs key obj.waitTasks.length reactions := by
  simp only [closeCalls, hconn, Option.bind_some, hobj]

theorem closeCalls_of_none (hconn : s.conns.lookup key = none)
    (reactions : List (List RdsSend)) : s.closeCalls (some key) reactions = [] := by
  simp only [closeCalls, hconn, Option.bind_none]

/-- A closed connection is deleted. -/
theorem Settled.dead (h : Settled s) (hobj : s.objs[c]? = some obj) (hclosed : obj.state = .closed) :
    Settled (s.setObj c .dead) := by
  have hctx := h.sound.linked.closed c obj hobj hclosed
  have hempty := h.sound.linked.waits c obj hobj (by rw [hclosed]; decide) (h.idle c obj hobj)
  refine ⟨⟨h.sound.linked.setObj fun o ho => ?_, h.sound.accounted.setObj fun o ho => ?_,
    h.sound.numbered.distinct, h.sound.numbered.fresh⟩, fun i o ho => ?_⟩
  · obtain rfl := Option.some.inj (hobj.symm.trans ho)
    exact ⟨hctx.symm, hclosed.symm, fun hne => absurd hclosed hne, fun _ => rfl, fun _ _ => rfl⟩
  · obtain rfl := Option.some.inj (hobj.symm.trans ho)
    exact ⟨hempty.symm, rfl, rfl⟩
  · rcases Heap.getElem?_modify_cases ho with ⟨-, o', -, rfl⟩ | ⟨-, hold⟩
    · rfl
    · exact h.idle i o hold

/-- **A connection is deleted** with its commands called back; the other entries are what the calls
of the callbacks make of them. -/
theorem Settled.deleteConn (h : Settled s) (hconn : s.conns.lookup key = some c)
    {reactions : List (List RdsSend)} (hrun : s.deleteConn c reactions = some s') :
    Settled s' ∧ s'.addrs = s.addrs ∧
      ∃ view, callsView s.addrs s.view (s.closeCalls (some key) reactions) = some view ∧
        view key ≠ .unusable ∧ ∀ key', key' ≠ key → s'.view key' = view key' := by
  obtain ⟨obj, hobj⟩ := h.sound.linked.conns key c hconn
  have hown : ∀ key', s.conns.lookup key' = some c → key' = key :=
    fun key' hc => h.sound.linked.inj key' key c hc hconn
  rw [closeCalls_of_conn hconn hobj]
  unfold RedisMgr.deleteConn at hrun
  simp only [hobj] at hrun
  split_ifs at hrun with hdeleted
  cases hk : obj.ctx with
  | none =>
    simp only [hk] at hrun
    cases hrun
    -- without a context there is nobody to answer
    obtain ⟨hclosed, hempty⟩ := h.without_ctx hobj hk
    refine ⟨h.dead hobj hclosed, rfl, s.view, ?_, ?_, fun key' hne => view_setObj hown _ hne⟩
    · rw [hempty]
      cases reactions <;> rfl
    · rw [Ne, view_of_lookup hconn hobj, entry_eq_unusable (h.idle c obj hobj)]
      exact hdeleted
  | some k =>
    simp only [hk] at hrun
    split at hrun
    · cases hrun
    · next s₁ hfail =>
      -- the waiting commands fail first, and their callbacks may send again
      have hdeleting : Deleting s key c k obj := ⟨h, hconn, hobj, hk⟩
      obtain ⟨obj₁, h₁, hstate, hempty, haddrs, hview⟩ := hdeleting.failWaiting hfail
      have hwaited : obj₁.state = .connected → obj.waitTasks = [] :=
        hstate.symm ▸ hdeleting.waited
      obtain ⟨s₂, phase, hdisconnect, hphase, heq⟩ := h₁.settled.sound.disconnect obj.waitTasks
        h₁.found h₁.ctx h₁.opened hempty hwaited
      rw [hdisconnect, Option.map_some] at hrun
      obtain rfl := Option.some.inj hrun
      rw [heq]
      have hown₁ : ∀ key', s₁.conns.lookup key' = some c → key' = key :=
        fun key' hc => h₁.settled.sound.linked.inj key' key c hc h₁.conn
      refine ⟨⟨h₁.settled.sound.delete h₁.found h₁.ctx h₁.opened hempty hphase, fun i o ho => ?_⟩,
        haddrs, s₁.view, hview, ?_, fun key' hne => ?_⟩
      · -- no loop runs over any connection
        rcases Heap.getElem?_modify_cases ho with ⟨-, o', -, rfl⟩ | ⟨-, hold⟩
        · rfl
        · exact h₁.settled.idle i o hold
      · rw [Ne, view_of_lookup h₁.conn h₁.found, entry_eq_unusable (h₁.settled.idle c _ h₁.found),
          (h₁.settled.sound.linked.active c _ h₁.found h₁.opened).1]
        exact Bool.false_ne_true
      · exact view_setObj (s := s₁.setPhase k phase) hown₁ _ hne

/-- A connection cannot be deleted again, and the calls of the callbacks must have a meaning. -/
theorem Settled.deleteConn_eq_none (h : Settled s) (hconn : s.conns.lookup key = some c)
    (hobj : s.objs[c]? = some obj) (reactions : List (List RdsSend)) :
    s.deleteConn c reactions = none ↔ obj.deleted = true ∨
      callsView s.addrs s.view (s.closeCalls (some key) reactions) = none := by
  rw [closeCalls_of_conn hconn hobj]
  unfold RedisMgr.deleteConn
  simp only [hobj]
  by_cases hdeleted : obj.deleted = true
  · rw [if_pos hdeleted]
    exact iff_of_true rfl (Or.inl hdeleted)
  rw [if_neg hdeleted, or_iff_right hdeleted]
  cases hk : obj.ctx with
  | none =>
    rw [(h.without_ctx hobj hk).2]
    refine iff_of_false (by rintro ⟨⟩) ?_
    cases reactions <;> rintro ⟨⟩
  | some k =>
    have hdeleting : Deleting s key c k obj := ⟨h, hconn, hobj, hk⟩
    rw [← hdeleting.failWaiting_eq_none]
    dsimp only
    split
    · next hfail => exact iff_of_true rfl hfail
    · next s₁ hfail =>
      -- what hiredis is told afterwards has a meaning
      obtain ⟨obj₁, h₁, hstate, hempty, -⟩ := hdeleting.failWaiting hfail
      have hwaited : obj₁.state = .connected → obj.waitTasks = [] :=
        hstate.symm ▸ hdeleting.waited
      obtain ⟨s₂, phase, hdisconnect, -⟩ := h₁.settled.sound.disconnect obj.waitTasks
        h₁.found h₁.ctx h₁.opened hempty hwaited
      rw [hdisconnect, hfail]
      exact iff_of_false (by rintro ⟨⟩) (by rintro ⟨⟩)

theorem Linked.view_eq_absent (h : Linked s) (key : Bytes) :
    s.view key = .absent ↔ s.conns.lookup key = none := by
  unfold RedisMgr.view
  cases hconn : s.conns.lookup key with
  | none => exact iff_of_true rfl rfl
  | some c =>
    obtain ⟨obj, hobj⟩ := h.conns key c hconn
    refine iff_of_false ?_ (by rintro ⟨⟩)
    simp only [hobj, Option.map_some, Option.getD_some, RdsConnection.entry]
    split_ifs <;> decide

/-- The entry of a connection that was deleted is removed, and the address of the node. -/
theorem Settled.erased (h : Settled s) (node : Bytes) :
    Settled { s with conns := s.conns.erase node, addrs := s.addrs.erase node } := by
  have hconns : ∀ {key c}, (s.conns.erase node).lookup key = some c →
      s.conns.lookup key = some c := by
    intro key c hc
    rw [FiniteMap.lookup_erase] at hc
    split_ifs at hc
    exact hc
  have hlinked := h.sound.linked
  refine ⟨⟨⟨fun key c hc => hlinked.conns key c (hconns hc),
    fun key key' c hc hc' => hlinked.inj key key' c (hconns hc) (hconns hc'), hlinked.closed,
    hlinked.active, hlinked.waits, hlinked.live, hlinked.left⟩,
    h.sound.accounted.of_fields rfl rfl rfl, h.sound.numbered.distinct, h.sound.numbered.fresh⟩,
    h.idle⟩

theorem view_erased (s : RedisMgr) (node key : Bytes) :
    ({ s with conns := s.conns.erase node, addrs := s.addrs.erase node } : RedisMgr).view key =
      if key = node then .absent else s.view key := by
  unfold RedisMgr.view
  simp only [FiniteMap.lookup_erase]
  split_ifs <;> rfl

/-- **`close`** keeps the account, and keeps the table as it should be where its calls spoil no
entry and the connection of the node is the one that it removes. -/
theorem Settled.close (h : Settled s) {node : Option Bytes} {reactions : List (List RdsSend)}
    (hrun : s.close node reactions = some s') :
    Settled s' ∧ (s.Live → (s'.Live ∧ Closed s s' (.close node reactions) ↔
      s.CloseKeeps (.close node reactions))) := by
  unfold RedisMgr.close at hrun
  unfold Closed CloseKeeps
  cases node with
  | none =>
    cases hrun
    refine ⟨h, fun hlive => iff_of_true ⟨hlive, fun name addr hn => by cases hn⟩ ?_⟩
    exact ⟨id, fun name addr hn => by cases hn⟩
  | some node =>
    dsimp only at hrun ⊢
    cases hconn : s.conns.lookup node with
    | none =>
      rw [hconn] at hrun
      cases hrun
      -- nothing is registered under this address
      rw [closeCalls_of_none hconn]
      refine ⟨h, fun hlive => and_congr (iff_of_true hlive id) ?_⟩
      refine forall₄_congr fun name addr hname _ => ?_
      obtain rfl := Option.some.inj hname
      constructor
      · exact fun hnone => Or.inr ⟨hnone, fun call hmem => absurd hmem List.not_mem_nil⟩
      · rintro (hkey | ⟨hnone, -⟩)
        · rw [hkey]
          exact hconn
        · exact hnone
    | some c =>
      rw [hconn] at hrun
      obtain ⟨s₁, hdelete, rfl⟩ := Option.map_eq_some_iff.mp hrun
      obtain ⟨h₁, haddrs, view, hview, hkey, hothers⟩ := h.deleteConn hconn hdelete
      -- the address is erased behind the deletion
      have hsettled := h₁.erased node
      refine ⟨hsettled, fun hlive => and_congr ?_ ?_⟩
      · rw [hsettled.live_iff, callsView_spoils hview, not_exists]
        refine forall_congr' fun key => ?_
        rw [view_erased]
        split_ifs with hnode
        · rw [hnode]
          exact iff_of_true (by decide) fun hspoiled => hkey hspoiled.1
        · rw [hothers key hnode]
          have hbefore := h.live_iff.mp hlive key
          exact ⟨fun hne hspoiled => hne hspoiled.1, fun hne hu => hne ⟨hu, hbefore⟩⟩
      · refine forall₄_congr fun name addr hname _ => ?_
        obtain rfl := Option.some.inj hname
        rw [← hsettled.sound.linked.view_eq_absent, view_erased]
        split_ifs with hnode
        · exact iff_of_true rfl (Or.inl hnode)
        · rw [hothers _ hnode, callsView_absent hview, h.sound.linked.view_eq_absent]
          exact (or_iff_right hnode).symm

theorem Settled.close_eq_none (h : Settled s) (node : Option Bytes)
    (reactions : List (List RdsSend)) :
    s.close node reactions = none ↔ s.CloseHazard (.close node reactions) := by
  unfold RedisMgr.close CloseHazard
  cases node with
  | none =>
    refine iff_of_false (by rintro ⟨⟩) ?_
    rintro (⟨name, _, _, ⟨⟩, -⟩ | hnone)
    cases hnone
  | some node =>
    dsimp only
    cases hconn : s.conns.lookup node with
    | none =>
      rw [closeCalls_of_none hconn]
      refine iff_of_false (by rintro ⟨⟩) ?_
      rintro (⟨name, c, obj, hname, hconn', -⟩ | hnone)
      · obtain rfl := Option.some.inj hname
        rw [hconn] at hconn'
        cases hconn'
      · cases hnone
    | some c =>
      obtain ⟨obj, hobj⟩ := h.sound.linked.conns node c hconn
      dsimp only
      rw [Option.map_eq_none_iff, h.deleteConn_eq_none hconn hobj]
      refine or_congr_left ⟨fun hdeleted => ⟨node, c, obj, rfl, hconn, hobj, hdeleted⟩, ?_⟩
      rintro ⟨name, c', obj', hname, hconn', hobj', hdeleted⟩
      obtain rfl := Option.some.inj hname
      obtain rfl := Option.some.inj (hconn.symm.trans hconn')
      obtain rfl := Option.some.inj (hobj.symm.trans hobj')
      exact hdeleted

/-- **The events that have no meaning** are the hazards, with the nodes that are closed. -/
theorem Settled.closeStep_eq_none (h : Settled s) (e : CloseEvent) :
    s.closeStep e = none ↔ s.CloseHazard e := by
  cases e with
  | redis e => exact h.step_eq_none e
  | close node reactions => exact h.close_eq_none node reactions

/-- One event, from a table whose entries are live. -/
theorem Settled.closeStep (h : Settled s) {e : CloseEvent} (hrun : s.closeStep e = some s') :
    Settled s' ∧ (s.Live → (s'.Live ∧ Closed s s' e ↔ s.CloseKeeps e)) := by
  cases e with
  | redis e => exact ⟨h.step hrun, fun hlive => (and_iff_left trivial).trans (h.live_step hlive hrun)⟩
  | close node reactions => exact h.close hrun

end RedisMgr

/-- **Every accepted command is answered once**: in the runs none of whose events is a hazard,
and in no others, every state has a meaning, and each call that returned true was called back or
will be, once. -/
theorem redis_answered_iff (addrs : FiniteMap Bytes (Bytes × ℤ)) (es : List CloseEvent) :
    closeMachine.Meets (fun w e => ∀ s, w = some s → ¬ s.CloseHazard e) (some { addrs := addrs })
        es ↔
      ∀ fs, fs <+: es →
        ∃ s, closeMachine.run (some { addrs := addrs }) fs = some s ∧ s.Answered := by
  refine Machine.Meets.iff_forall_prefix (P := fun w => ∃ s : RedisMgr, w = some s ∧ s.Answered)
    (I := fun w => ∃ s : RedisMgr, w = some s ∧ s.Settled) (Q := fun _ => True) ?_ ?_ ?_
    ⟨_, rfl, RedisMgr.settled_init addrs⟩ fun _ _ => trivial
  · rintro w ⟨s, rfl, hs⟩
    exact ⟨s, rfl, hs.answered⟩
  · rintro w e - ⟨s, rfl, hs⟩ hsafe
    have hsome : s.closeStep e ≠ none := fun hnone =>
      hsafe s rfl ((hs.closeStep_eq_none e).mp hnone)
    obtain ⟨s', hs'⟩ := Option.ne_none_iff_exists'.mp hsome
    exact ⟨s', hs', (hs.closeStep hs').1⟩
  · rintro w e - ⟨s, rfl, hs⟩ ⟨s', hs', -⟩ s₁ hs₁ hhazard
    obtain rfl := Option.some.inj hs₁
    have hnone := (hs.closeStep_eq_none e).mpr hhazard
    rw [show s.closeStep e = some s' from hs'] at hnone
    cases hnone

/-- One node of Redis. -/
def oneAddr : FiniteMap Bytes (Bytes × ℤ) :=
  (∅ : FiniteMap Bytes (Bytes × ℤ)).insert (text "a") (text "10.0.0.1", 6379)

/-- Two commands wait for a connection, and the connect fails. The callback of the first one sends
its command again; the connection is opened again under the loop, and the second command is gone. -/
theorem redis_resend_lost :
    ¬ ∃ s, closeMachine.run (some { addrs := oneAddr })
        [.redis (.send { node := some (text "a"), argv := [text "incr", text "x"], fn := some 0 }),
          .redis (.send { node := some (text "a"), argv := [text "incr", text "y"], fn := some 0 }),
          .redis (.connected 0 false (fun _ => true) fun id =>
            if id = 0 then [{ node := some (text "a"), argv := [text "incr", text "x"], fn := some 0 }]
            else [])] = some s ∧ s.Answered := by
  rintro ⟨s, hs, -⟩
  have hnone : (closeMachine.run (some { addrs := oneAddr })
      [.redis (.send { node := some (text "a"), argv := [text "incr", text "x"], fn := some 0 }),
        .redis (.send { node := some (text "a"), argv := [text "incr", text "y"], fn := some 0 }),
        .redis (.connected 0 false (fun _ => true) fun id =>
          if id = 0 then [{ node := some (text "a"), argv := [text "incr", text "x"], fn := some 0 }]
          else [])]).isNone = true := by decide +kernel
  rw [hs] at hnone
  cases hnone

/-- **The connection table**: in every state of a run whose events all keep the table, and of no
other, every entry is a live connection, and after `close` none is under the address of the
node. -/
theorem redis_live_iff (addrs : FiniteMap Bytes (Bytes × ℤ)) (es : List CloseEvent) :
    closeMachine.Meets (fun w e => ∀ s s', w = some s → s.closeStep e = some s' → s.CloseKeeps e)
        (some { addrs := addrs }) es ↔
      ∀ past e, past ++ [e] <+: es → ∀ s s', closeMachine.run (some { addrs := addrs }) past =
        some s → s.closeStep e = some s' → s'.Live ∧ RedisMgr.Closed s s' e := by
  have hstart : ∀ s : RedisMgr, some { addrs := addrs } = some s → s.Settled ∧ s.Live := by
    intro s hs
    obtain rfl := Option.some.inj hs
    exact ⟨RedisMgr.settled_init addrs, fun key c hc => by simp at hc⟩
  refine (Machine.Meets.congr (I := fun w => ∀ s : RedisMgr, w = some s → s.Settled ∧ s.Live)
    (D := fun w e => ∀ s s' : RedisMgr, w = some s → s.closeStep e = some s' →
      s'.Live ∧ RedisMgr.Closed s s' e) ?_ ?_ hstart es).trans Machine.Meets.iff_forall_step
  · intro w e hw
    refine forall₄_congr fun s s' hs hrun => ?_
    obtain ⟨hsettled, hlive⟩ := hw s hs
    exact ((hsettled.closeStep hrun).2 hlive).symm
  · intro w e hw hkeeps s' hs'
    obtain ⟨s, hs, hrun⟩ := Option.bind_eq_some_iff.mp hs'
    exact ⟨((hw s hs).1.closeStep hrun).1, (hkeeps s s' hs hrun).1⟩

/-- A command for the node. -/
def oneSend (connect : ConnectReply) : CloseEvent :=
  .redis (.send { node := some (text "a"), argv := [text "ping"], fn := some 0, connect := connect })

/-- A connection is lost and cannot be opened again, and its entry points to the deleted object; and
a node is closed whose connection stays. -/
theorem redis_not_live :
    (∃ s, closeMachine.run (some { addrs := oneAddr }) [oneSend .ok,
        .redis (.connected 0 false (fun _ => true) fun _ => []), oneSend .error] = some s ∧
      ¬ s.Live) ∧
    ∃ s s', closeMachine.run (some { addrs := oneAddr }) [oneSend .ok] = some s ∧
      s.closeStep (.close (some (text "a")) []) = some s' ∧
      ¬ RedisMgr.Closed s s' (.close (some (text "a")) []) := by
  constructor
  · have hrun : (closeMachine.run (some { addrs := oneAddr }) [oneSend .ok,
        .redis (.connected 0 false (fun _ => true) fun _ => []), oneSend .error]).map (fun s =>
          (s.conns.lookup (formatAddr (text "10.0.0.1") 6379), s.objs.map RdsConnection.deleted)) =
        some (some 0, [true]) := by decide +kernel
    obtain ⟨s, hs, hs'⟩ := Option.map_eq_some_iff.mp hrun
    obtain ⟨hconn, hobjs⟩ := Prod.mk.inj hs'
    refine ⟨s, hs, fun hlive => ?_⟩
    obtain ⟨obj, hobj, hdeleted⟩ := hlive _ 0 hconn
    have hget : (s.objs.map RdsConnection.deleted)[0]? = some obj.deleted := by
      rw [List.getElem?_map, hobj]
      rfl
    rw [hobjs, hdeleted] at hget
    cases hget
  · have hrun : (closeMachine.run (some { addrs := oneAddr }) [oneSend .ok]).map (fun s =>
        (s.addrs.lookup (text "a"), s.conns.lookup (text "a"),
          s.conns.lookup (formatAddr (text "10.0.0.1") 6379))) =
        some (some (text "10.0.0.1", 6379), none, some 0) := by decide +kernel
    obtain ⟨s, hs, hs'⟩ := Option.map_eq_some_iff.mp hrun
    obtain ⟨haddr, hrest⟩ := Prod.mk.inj hs'
    obtain ⟨hname, hconn⟩ := Prod.mk.inj hrest
    refine ⟨s, s, hs, ?_, fun hclosed => ?_⟩
    · change s.close (some (text "a")) [] = some s
      unfold RedisMgr.close
      simp only [hname]
    · rw [hclosed (text "a") _ rfl haddr] at hconn
      cases hconn

end Kimserver
