import Kimserver.Lib.Heap
import Kimserver.Redis.RedisMgr

/-!
# Connections and their contexts

An open connection points to its context, and the context points back to it. Commands wait only
while a connection is being set up, or while the loop that empties the list is running. These
links hold after every write, also in the middle of a loop, and while they hold a call is decided
by little: by what it finds under its key.

## Main definitions

* `RedisMgr.Linked`: the links
* `RedisMgr.Framed`: a call leaves the connections alone that are being walked
* `Entry`, `RedisMgr.view`: what a call finds under a key
* `callView`, `callsView`: what calls make of that

## Main results

* `RedisMgr.Linked.sent`: a call keeps the links
* `RedisMgr.Linked.runSends_view`: what calls find decides whether they have a meaning
-/

namespace Kimserver

/-- How far the context of an open connection is. -/
def RdsState.phase : RdsState → CtxPhase
  | .connecting => .connecting
  | .connected => .connected
  | .closed => .gone

theorem RdsConnection.isActive_iff {obj : RdsConnection} :
    obj.isActive = true ↔ obj.state ≠ .closed := by
  unfold isActive
  cases obj.state <;> decide

namespace RedisMgr

variable {s s' : RedisMgr}

/-- The links between connections and contexts, and where commands may wait. -/
structure Linked (s : RedisMgr) : Prop where
  conns : ∀ key c, s.conns.lookup key = some c → ∃ obj, s.objs[c]? = some obj
  inj : ∀ key key' c, s.conns.lookup key = some c → s.conns.lookup key' = some c → key = key'
  closed : ∀ (c : ℕ) (obj : RdsConnection), s.objs[c]? = some obj → obj.state = .closed →
    obj.ctx = none
  active : ∀ (c : ℕ) (obj : RdsConnection), s.objs[c]? = some obj → obj.state ≠ .closed →
    obj.deleted = false ∧ ∃ k ctx, obj.ctx = some k ∧ s.ctxs[k]? = some ctx ∧ ctx.data = c ∧
      ctx.phase = obj.state.phase
  waits : ∀ (c : ℕ) (obj : RdsConnection), s.objs[c]? = some obj → obj.state ≠ .connecting →
    obj.walking = false → obj.waitTasks = []
  live : ∀ (k : ℕ) (ctx : RedisCtx), s.ctxs[k]? = some ctx →
    ctx.phase = .connecting ∨ ctx.phase = .connected →
      ∃ obj, s.objs[ctx.data]? = some obj ∧ obj.ctx = some k
  left : ∀ (k : ℕ) (ctx : RedisCtx), s.ctxs[k]? = some ctx → ctx.phase = .disconnecting →
    ∃ obj, s.objs[ctx.data]? = some obj ∧ obj.deleted = true

/-- Members that are not about connections. -/
theorem Linked.of_fields (h : Linked s) (hconns : s'.conns = s.conns) (hobjs : s'.objs = s.objs)
    (hctxs : s'.ctxs = s.ctxs) : Linked s' where
  conns := by rw [hconns, hobjs]; exact h.conns
  inj := hconns ▸ h.inj
  closed := hobjs ▸ h.closed
  active := by rw [hobjs, hctxs]; exact h.active
  waits := hobjs ▸ h.waits
  live := by rw [hobjs, hctxs]; exact h.live
  left := by rw [hobjs, hctxs]; exact h.left

/-- A write to a connection that keeps its context and its state. An open connection is not
deleted by it. -/
structure KeepsLink (obj obj' : RdsConnection) : Prop where
  ctx : obj'.ctx = obj.ctx
  state : obj'.state = obj.state
  live : obj.state ≠ .closed → obj'.deleted = obj.deleted
  deleted : obj.deleted = true → obj'.deleted = true
  waits : obj'.state ≠ .connecting → obj'.walking = false → obj'.waitTasks = []

theorem Linked.setObj (h : Linked s) {c : ℕ} {f : RdsConnection → RdsConnection}
    (hf : ∀ obj, s.objs[c]? = some obj → KeepsLink obj (f obj)) : Linked (s.setObj c f) := by
  have hget : ∀ (i : ℕ) (obj : RdsConnection), s.objs[i]? = some obj →
      ∃ obj' : RdsConnection, (s.setObj c f).objs[i]? = some obj' ∧ obj'.ctx = obj.ctx ∧
        (obj.deleted = true → obj'.deleted = true) := by
    intro i obj hobj
    by_cases hci : c = i
    · subst hci
      exact ⟨f obj, getElem?_setObj_self hobj f, (hf obj hobj).ctx, (hf obj hobj).deleted⟩
    · exact ⟨obj, (getElem?_setObj_of_ne hci s f).trans hobj, rfl, id⟩
  constructor
  · intro key i hi
    obtain ⟨obj, hobj⟩ := h.conns key i hi
    obtain ⟨obj', hobj', -⟩ := hget i obj hobj
    exact ⟨obj', hobj'⟩
  · exact h.inj
  · intro i obj' hobj' hstate
    rcases Heap.getElem?_modify_cases hobj' with ⟨rfl, obj, hobj, rfl⟩ | ⟨-, hold⟩
    · rw [(hf obj hobj).ctx]
      exact h.closed c obj hobj ((hf obj hobj).state ▸ hstate)
    · exact h.closed i obj' hold hstate
  · intro i obj' hobj' hstate
    rcases Heap.getElem?_modify_cases hobj' with ⟨rfl, obj, hobj, rfl⟩ | ⟨-, hold⟩
    · have hk := hf obj hobj
      rw [hk.state] at hstate ⊢
      rw [hk.live hstate, hk.ctx]
      exact h.active c obj hobj hstate
    · exact h.active i obj' hold hstate
  · intro i obj' hobj' hstate hwalk
    rcases Heap.getElem?_modify_cases hobj' with ⟨rfl, obj, hobj, rfl⟩ | ⟨-, hold⟩
    · exact (hf obj hobj).waits hstate hwalk
    · exact h.waits i obj' hold hstate hwalk
  · intro k ctx hctx hphase
    obtain ⟨obj, hobj, hk⟩ := h.live k ctx hctx hphase
    obtain ⟨obj', hobj', hsame, -⟩ := hget _ obj hobj
    exact ⟨obj', hobj', hsame.trans hk⟩
  · intro k ctx hctx hphase
    obtain ⟨obj, hobj, hdel⟩ := h.left k ctx hctx hphase
    obtain ⟨obj', hobj', -, hdel'⟩ := hget _ obj hobj
    exact ⟨obj', hobj', hdel' hdel⟩

/-- Writing members of a context other than its connection and its phase. -/
theorem Linked.setCtx (h : Linked s) (k : ℕ) {f : RedisCtx → RedisCtx}
    (hf : ∀ ctx, (f ctx).data = ctx.data ∧ (f ctx).phase = ctx.phase) : Linked (s.setCtx k f) := by
  have hget : ∀ (i : ℕ) (ctx' : RedisCtx), (s.setCtx k f).ctxs[i]? = some ctx' →
      ∃ ctx : RedisCtx, s.ctxs[i]? = some ctx ∧ ctx'.data = ctx.data ∧
        ctx'.phase = ctx.phase := by
    intro i ctx' hctx'
    rcases Heap.getElem?_modify_cases hctx' with ⟨rfl, ctx, hctx, rfl⟩ | ⟨-, hold⟩
    · exact ⟨ctx, hctx, hf ctx⟩
    · exact ⟨ctx', hold, rfl, rfl⟩
  refine ⟨h.conns, h.inj, h.closed, ?_, h.waits, ?_, ?_⟩
  · intro c obj hobj hstate
    obtain ⟨hdel, i, ctx, hi, hctx, hdata, hphase⟩ := h.active c obj hobj hstate
    have hctx' : (s.setCtx k f).ctxs[i]? = some (if k = i then f ctx else ctx) := by
      unfold RedisMgr.setCtx
      rw [List.getElem?_modify, hctx]
      rfl
    refine ⟨hdel, i, _, hi, hctx', ?_, ?_⟩
    · split_ifs
      · exact (hf ctx).1.trans hdata
      · exact hdata
    · split_ifs
      · exact (hf ctx).2.trans hphase
      · exact hphase
  · intro i ctx' hctx' hphase
    obtain ⟨ctx, hctx, hdata, heq⟩ := hget i ctx' hctx'
    rw [hdata]
    exact h.live i ctx hctx (heq ▸ hphase)
  · intro i ctx' hctx' hphase
    obtain ⟨ctx, hctx, hdata, heq⟩ := hget i ctx' hctx'
    rw [hdata]
    exact h.left i ctx hctx (heq ▸ hphase)

/-- A closed connection that is opened. -/
theorem Linked.opened (h : Linked s) {c : ℕ} {obj : RdsConnection} (hobj : s.objs[c]? = some obj)
    (hclosed : obj.state = .closed) (hdeleted : obj.deleted = false) {key : Bytes}
    (hown : ∀ key', s.conns.lookup key' = some c → key' = key) (host : Bytes) (port : ℤ) :
    Linked { s.opened c host port with conns := s.conns.insert key c } := by
  have hctx : obj.ctx = none := h.closed c obj hobj hclosed
  have hself : ∃ obj', (s.opened c host port).objs[c]? = some obj' ∧
      obj'.ctx = some s.ctxs.length := ⟨_, getElem?_setObj_self hobj _, rfl⟩
  have hother : ∀ i, i ≠ c → (s.opened c host port).objs[i]? = s.objs[i]? :=
    fun i hi => getElem?_setObj_of_ne (Ne.symm hi) s _
  have hnew : (s.opened c host port).ctxs[s.ctxs.length]? =
      some { data := c, host := host, port := port } := List.getElem?_concat_length
  constructor
  · intro key' i hi
    rw [FiniteMap.lookup_insert] at hi
    by_cases hic : i = c
    · subst hic
      obtain ⟨obj', hobj', -⟩ := hself
      exact ⟨obj', hobj'⟩
    · split_ifs at hi
      · exact absurd (Option.some.inj hi).symm hic
      · obtain ⟨obj', hobj'⟩ := h.conns key' i hi
        exact ⟨obj', (hother i hic).trans hobj'⟩
  · exact FiniteMap.insert_inj h.inj hown
  · intro i obj' hobj' hstate
    rcases Heap.getElem?_modify_cases hobj' with ⟨-, o, -, heq⟩ | ⟨-, hold⟩
    · rw [heq] at hstate
      cases hstate
    · exact h.closed i obj' hold hstate
  · intro i obj' hobj' hstate
    rcases Heap.getElem?_modify_cases hobj' with ⟨rfl, o, ho, rfl⟩ | ⟨-, hold⟩
    · rw [hobj] at ho
      obtain rfl := Option.some.inj ho
      exact ⟨hdeleted, s.ctxs.length, _, rfl, hnew, rfl, rfl⟩
    · obtain ⟨hdel, k, ctx, hk, hget, hdata, hphase⟩ := h.active i obj' hold hstate
      exact ⟨hdel, k, ctx, hk, Heap.getElem?_snoc_of_some hget _, hdata, hphase⟩
  · intro i obj' hobj' hstate hwalk
    rcases Heap.getElem?_modify_cases hobj' with ⟨-, o, -, heq⟩ | ⟨-, hold⟩
    · rw [heq] at hstate
      exact absurd rfl hstate
    · exact h.waits i obj' hold hstate hwalk
  · intro k ctx hget hphase
    rcases Heap.getElem?_snoc_cases hget with hold | ⟨rfl, rfl⟩
    · obtain ⟨o, ho, hk⟩ := h.live k ctx hold hphase
      -- The context of another connection: this one had none.
      have hne : ctx.data ≠ c := by
        rintro hdata
        rw [hdata, hobj] at ho
        obtain rfl := Option.some.inj ho
        rw [hctx] at hk
        cases hk
      exact ⟨o, (hother _ hne).trans ho, hk⟩
    · exact hself
  · intro k ctx hget hphase
    rcases Heap.getElem?_snoc_cases hget with hold | ⟨-, rfl⟩
    · obtain ⟨o, ho, hdel⟩ := h.left k ctx hold hphase
      have hne : ctx.data ≠ c := by
        rintro hdata
        rw [hdata, hobj] at ho
        obtain rfl := Option.some.inj ho
        rw [hdeleted] at hdel
        cases hdel
      exact ⟨o, (hother _ hne).trans ho, hdel⟩
    · cases hphase

/-- An open connection and its context, after both were written. -/
theorem Linked.relink (h : Linked s) {c k : ℕ} {obj : RdsConnection} {phase : CtxPhase}
    {f : RdsConnection → RdsConnection} (hobj : s.objs[c]? = some obj)
    (hstate : obj.state ≠ .closed) (hk : obj.ctx = some k)
    (hclosed : (f obj).state = .closed → (f obj).ctx = none)
    (hactive : (f obj).state ≠ .closed →
      (f obj).deleted = false ∧ (f obj).ctx = some k ∧ phase = (f obj).state.phase)
    (hwaits : (f obj).state ≠ .connecting → (f obj).walking = false → (f obj).waitTasks = [])
    (hlive : phase = .connecting ∨ phase = .connected → (f obj).ctx = some k)
    (hleft : phase = .disconnecting → (f obj).deleted = true) :
    Linked ((s.setPhase k phase).setObj c f) := by
  obtain ⟨hdeleted, k', ctx, hk', hctx, hdata, -⟩ := h.active c obj hobj hstate
  obtain rfl : k = k' := Option.some.inj (hk.symm.trans hk')
  generalize hs₁ : s.setPhase k phase = s₁
  have hobjs : s₁.objs = s.objs := by rw [← hs₁]; rfl
  have hconns : s₁.conns = s.conns := by rw [← hs₁]; rfl
  have hself : (s₁.setObj c f).objs[c]? = some (f obj) :=
    getElem?_setObj_self (hobjs ▸ hobj) f
  have hother : ∀ i, i ≠ c → (s₁.setObj c f).objs[i]? = s.objs[i]? := by
    intro i hi
    rw [getElem?_setObj_of_ne (Ne.symm hi), hobjs]
  have hctxSelf : s₁.ctxs[k]? = some { ctx with phase := phase } := by
    rw [← hs₁]
    unfold setPhase RedisMgr.setCtx
    rw [List.getElem?_modify, hctx]
    exact congrArg some (if_pos rfl)
  have hctxOther : ∀ i, i ≠ k → s₁.ctxs[i]? = s.ctxs[i]? := by
    intro i hi
    rw [← hs₁]
    unfold setPhase RedisMgr.setCtx
    rw [List.getElem?_modify, funext fun _ => if_neg (Ne.symm hi)]
    exact Option.map_id'
  have hcases : ∀ i obj', (s₁.setObj c f).objs[i]? = some obj' →
      i = c ∧ obj' = f obj ∨ i ≠ c ∧ s.objs[i]? = some obj' := by
    intro i obj' hobj'
    by_cases hic : i = c
    · subst hic
      rw [hself] at hobj'
      exact Or.inl ⟨rfl, (Option.some.inj hobj').symm⟩
    · exact Or.inr ⟨hic, (hother i hic) ▸ hobj'⟩
  constructor
  · intro key i hi
    obtain ⟨o, ho⟩ := h.conns key i (hconns ▸ hi)
    by_cases hic : i = c
    · exact ⟨f obj, hic ▸ hself⟩
    · exact ⟨o, (hother i hic).trans ho⟩
  · exact hconns ▸ h.inj
  · intro i obj' hobj' hst
    rcases hcases i obj' hobj' with ⟨-, rfl⟩ | ⟨-, hold⟩
    · exact hclosed hst
    · exact h.closed i obj' hold hst
  · intro i obj' hobj' hst
    rcases hcases i obj' hobj' with ⟨rfl, rfl⟩ | ⟨hic, hold⟩
    · obtain ⟨hdel, hctx', hphase⟩ := hactive hst
      exact ⟨hdel, k, _, hctx', hctxSelf, hdata, hphase⟩
    · obtain ⟨hdel, j, ctx', hj, hget, hdata', hphase⟩ := h.active i obj' hold hst
      -- The context points back to one connection only.
      have hjk : j ≠ k := by
        rintro rfl
        rw [hctx] at hget
        obtain rfl := Option.some.inj hget
        exact hic (hdata'.symm.trans hdata)
      exact ⟨hdel, j, ctx', hj, (hctxOther j hjk).trans hget, hdata', hphase⟩
  · intro i obj' hobj' hst hwalk
    rcases hcases i obj' hobj' with ⟨-, rfl⟩ | ⟨-, hold⟩
    · exact hwaits hst hwalk
    · exact h.waits i obj' hold hst hwalk
  · intro j ctx' hget hphase
    by_cases hjk : j = k
    · subst hjk
      obtain rfl := Option.some.inj (hctxSelf.symm.trans hget)
      exact ⟨f obj, hdata ▸ hself, hlive hphase⟩
    · obtain ⟨o, ho, hj⟩ := h.live j ctx' ((hctxOther j hjk) ▸ hget) hphase
      have hne : ctx'.data ≠ c := by
        intro hc
        rw [hc, hobj] at ho
        obtain rfl := Option.some.inj ho
        exact hjk (Option.some.inj (hj.symm.trans hk))
      exact ⟨o, (hother _ hne).trans ho, hj⟩
  · intro j ctx' hget hphase
    by_cases hjk : j = k
    · subst hjk
      obtain rfl := Option.some.inj (hctxSelf.symm.trans hget)
      exact ⟨f obj, hdata ▸ hself, hleft hphase⟩
    · obtain ⟨o, ho, hdel⟩ := h.left j ctx' ((hctxOther j hjk) ▸ hget) hphase
      have hne : ctx'.data ≠ c := by
        intro hc
        rw [hc, hobj] at ho
        obtain rfl := Option.some.inj ho
        rw [hdeleted] at hdel
        cases hdel
      exact ⟨o, (hother _ hne).trans ho, hdel⟩

/-! ## Calls keep the links -/

theorem Linked.picked (h : Linked s) {key : Bytes} {s₁ : RedisMgr} {c : ℕ} {obj : RdsConnection}
    (hpick : Picked s key s₁ c obj) : Linked s₁ ∧ obj.state = .closed ∧ obj.deleted = false ∧
      ∀ key', s₁.conns.lookup key' = some c → key' = key := by
  cases hpick with
  | fresh _ =>
    refine ⟨⟨?_, h.inj, ?_, ?_, ?_, ?_, ?_⟩, rfl, rfl, ?_⟩
    · intro key' c hc
      obtain ⟨obj, hobj⟩ := h.conns key' c hc
      exact ⟨obj, Heap.getElem?_snoc_of_some hobj _⟩
    · intro c obj hobj hstate
      rcases Heap.getElem?_snoc_cases hobj with hold | ⟨-, rfl⟩
      · exact h.closed c obj hold hstate
      · rfl
    · intro c obj hobj hstate
      rcases Heap.getElem?_snoc_cases hobj with hold | ⟨-, rfl⟩
      · exact h.active c obj hold hstate
      · exact absurd rfl hstate
    · intro c obj hobj hstate hwalk
      rcases Heap.getElem?_snoc_cases hobj with hold | ⟨-, rfl⟩
      · exact h.waits c obj hold hstate hwalk
      · rfl
    · intro k ctx hctx hphase
      obtain ⟨obj, hobj, hk⟩ := h.live k ctx hctx hphase
      exact ⟨obj, Heap.getElem?_snoc_of_some hobj _, hk⟩
    · intro k ctx hctx hphase
      obtain ⟨obj, hobj, hdel⟩ := h.left k ctx hctx hphase
      exact ⟨obj, Heap.getElem?_snoc_of_some hobj _, hdel⟩
    · intro key' hc
      -- No entry points to an object that did not exist.
      obtain ⟨obj, hobj⟩ := h.conns key' _ hc
      exact absurd (List.getElem?_eq_some_iff.mp hobj).1 (Nat.lt_irrefl _)
  | closed c obj hconn hobj hdeleted hactive =>
    refine ⟨h, ?_, hdeleted, fun key' hc => h.inj key' key c hc hconn⟩
    by_contra hstate
    rw [RdsConnection.isActive_iff.mpr hstate] at hactive
    cases hactive

theorem Linked.got (h : Linked s) {node : Bytes} {r : Option ℕ} (hgot : Got s node r s') :
    Linked s' := by
  cases hgot with
  | unknown _ => exact h
  | active _ _ _ _ _ _ _ _ _ => exact h
  | failed host port s₁ c obj _ hpick hctx hwalk =>
    obtain ⟨hlinked, hstate, hdeleted, -⟩ := h.picked hpick
    refine hlinked.setObj fun obj' hobj' => ?_
    obtain rfl := Option.some.inj (hpick.hobj.symm.trans hobj')
    exact ⟨hctx.symm, hstate.symm, fun hne => absurd hstate hne, fun _ => rfl, fun _ _ => rfl⟩
  | opened host port s₁ c obj _ _ hpick _ _ =>
    obtain ⟨hlinked, hstate, hdeleted, hown⟩ := h.picked hpick
    exact hlinked.opened hpick.hobj hstate hdeleted hown host port

theorem Linked.conn_sent (h : Linked s) {c : ℕ} {task : RdsTask} {b : Bool}
    (hsent : ConnSent s c task b s') : Linked s' := by
  cases hsent with
  | refused => exact h
  | waits obj hobj hstate _ =>
    refine h.setObj fun obj' hobj' => ?_
    obtain rfl := Option.some.inj (hobj.symm.trans hobj')
    exact ⟨rfl, rfl, fun _ => rfl, id, fun hne => absurd hstate hne⟩
  | sent obj k _ _ _ => exact h.setCtx k fun ctx => ⟨rfl, rfl⟩

theorem Linked.sent (h : Linked s) {call : RdsSend} {b : Bool} (hsent : Sent s call b s') :
    Linked s' := by
  have hcounted : Linked { s with nextSend := s.nextSend + 1 } := h.of_fields rfl rfl rfl
  cases hsent with
  | invalid => exact hcounted
  | refused node s' hgot => exact hcounted.got hgot
  | answered node fn c b s₁ s₂ hgot hconn =>
    have hnoted : Linked
        { s₁ with got := s₁.got ++ [(node, (s₁.objs[c]?).bind RdsConnection.addr)] } :=
      (hcounted.got hgot).of_fields rfl rfl rfl
    exact (hnoted.conn_sent hconn).of_fields rfl rfl rfl

/-! ## Calls leave the walked connections alone -/

/-- The connections that are being walked are the same, and the addresses. -/
structure Framed (s s' : RedisMgr) : Prop where
  addrs : s'.addrs = s.addrs
  kept : ∀ (c : ℕ) (obj : RdsConnection), s.objs[c]? = some obj → obj.walking = true →
    s'.objs[c]? = some obj
  walked : ∀ (c : ℕ) (obj : RdsConnection), s'.objs[c]? = some obj → obj.walking = true →
    s.objs[c]? = some obj

theorem Framed.of_objs (haddrs : s'.addrs = s.addrs) (hobjs : s'.objs = s.objs) : Framed s s' :=
  ⟨haddrs, fun _ _ hobj _ => hobjs ▸ hobj, fun _ _ hobj _ => hobjs ▸ hobj⟩

theorem Framed.refl (s : RedisMgr) : Framed s s := .of_objs rfl rfl

theorem Framed.trans {s'' : RedisMgr} (h : Framed s s') (h' : Framed s' s'') : Framed s s'' where
  addrs := h'.addrs.trans h.addrs
  kept c obj hobj hwalk := h'.kept c obj (h.kept c obj hobj hwalk) hwalk
  walked c obj hobj hwalk := h.walked c obj (h'.walked c obj hobj hwalk) hwalk

theorem framed_setObj (s : RedisMgr) {c : ℕ} {f : RdsConnection → RdsConnection}
    (hf : ∀ obj, s.objs[c]? = some obj → obj.walking = false ∧ (f obj).walking = false) :
    Framed s (s.setObj c f) where
  addrs := rfl
  kept i obj hobj hwalk := by
    have hne : c ≠ i := by
      rintro rfl
      rw [(hf obj hobj).1] at hwalk
      cases hwalk
    exact (getElem?_setObj_of_ne hne s f).trans hobj
  walked i obj' hobj' hwalk := by
    rcases Heap.getElem?_modify_cases hobj' with ⟨-, obj, hobj, rfl⟩ | ⟨-, hold⟩
    · rw [(hf obj hobj).2] at hwalk
      cases hwalk
    · exact hold

theorem Framed.of_picked {key : Bytes} {s₁ : RedisMgr} {c : ℕ} {obj : RdsConnection}
    (hpick : Picked s key s₁ c obj) : Framed s s₁ := by
  cases hpick with
  | fresh _ =>
    refine ⟨rfl, fun i o ho _ => Heap.getElem?_snoc_of_some ho _, fun i o ho hwalk => ?_⟩
    rcases Heap.getElem?_snoc_cases ho with hold | ⟨-, rfl⟩
    · exact hold
    · cases hwalk
  | closed _ _ _ _ _ _ => exact .refl s

theorem Framed.of_got {node : Bytes} {r : Option ℕ} (hgot : Got s node r s') : Framed s s' := by
  cases hgot with
  | unknown _ => exact .refl s
  | active _ _ _ _ _ _ _ _ _ => exact .refl s
  | failed _ _ s₁ c obj _ hpick _ hwalk =>
    refine (Framed.of_picked hpick).trans (framed_setObj s₁ fun obj' hobj' => ?_)
    obtain rfl := Option.some.inj (hpick.hobj.symm.trans hobj')
    exact ⟨hwalk, hwalk⟩
  | opened host port s₁ c obj _ _ hpick _ hwalk =>
    refine (Framed.of_picked hpick).trans (Framed.trans (framed_setObj s₁ (c := c)
      (f := fun obj => { obj.clear with
        state := .connecting, ctx := some s₁.ctxs.length, addr := some (host, port) }) ?_)
      (.of_objs rfl rfl))
    intro obj' hobj'
    obtain rfl := Option.some.inj (hpick.hobj.symm.trans hobj')
    exact ⟨hwalk, hwalk⟩

theorem Framed.of_connSent {c : ℕ} {task : RdsTask} {b : Bool} (hsent : ConnSent s c task b s') :
    Framed s s' := by
  cases hsent with
  | refused => exact .refl s
  | waits obj hobj _ hwalk =>
    refine framed_setObj s fun obj' hobj' => ?_
    obtain rfl := Option.some.inj (hobj.symm.trans hobj')
    exact ⟨hwalk, hwalk⟩
  | sent _ _ _ _ _ => exact .of_objs rfl rfl

theorem Framed.of_sent {call : RdsSend} {b : Bool} (hsent : Sent s call b s') : Framed s s' := by
  have hcounted : Framed s { s with nextSend := s.nextSend + 1 } := .of_objs rfl rfl
  cases hsent with
  | invalid => exact hcounted
  | refused node s' hgot => exact hcounted.trans (.of_got hgot)
  | answered node fn c b s₁ s₂ hgot hconn =>
    have hnoted : Framed s₁
        { s₁ with got := s₁.got ++ [(node, (s₁.objs[c]?).bind RdsConnection.addr)] } :=
      .of_objs rfl rfl
    exact ((hcounted.trans (.of_got hgot)).trans (hnoted.trans (.of_connSent hconn))).trans
      (.of_objs rfl rfl)

end RedisMgr

/-! ## What calls find -/

/-- What a call finds under a key: no connection, a closed or an open one, or one that it cannot
use: a deleted one, or one whose list is being walked while it is not connected. -/
inductive Entry
  | absent
  | closed
  | active
  | unusable
  deriving DecidableEq, Repr

/-- What a call makes of what it finds, given whether the address can be opened and the result of
the connect. A closed connection that cannot be opened again is deleted, but stays in the map. -/
def Entry.connect (valid : Bool) : Entry → ConnectReply → Option Entry
  | .unusable, _ => none
  | .active, _ => some .active
  | .absent, r =>
    if valid then
      match r with
      | .null => none
      | .error | .attachFailed => some .absent
      | .ok => some .active
    else some .absent
  | .closed, r =>
    if valid then
      match r with
      | .null => none
      | .error | .attachFailed => some .unusable
      | .ok => some .active
    else some .unusable

/-- What is under the keys after a call; `none` if the call has no meaning. -/
def callView (addrs : FiniteMap Bytes (Bytes × ℤ)) (view : Bytes → Entry) (call : RdsSend) :
    Option (Bytes → Entry) :=
  match call.node, call.fn with
  | some node, some _ =>
    if call.argv = [] then some view
    else
      match addrs.lookup node with
      | none => some view
      | some (host, port) =>
        ((view (formatAddr host port)).connect (!(host = [] || port = 0)) call.connect).map
          (Function.update view (formatAddr host port))
  | _, _ => some view

/-- What is under the keys after the calls of a callback. -/
def callsView (addrs : FiniteMap Bytes (Bytes × ℤ)) (view : Bytes → Entry) :
    List RdsSend → Option (Bytes → Entry)
  | [] => some view
  | call :: calls => (callView addrs view call).bind fun view => callsView addrs view calls

/-- What a call finds when the entry of its key is this connection. -/
def RdsConnection.entry (obj : RdsConnection) : Entry :=
  if obj.deleted || (obj.walking && obj.state ≠ .connected) then .unusable
  else if obj.state = .closed then .closed
  else .active

namespace RedisMgr

variable {s s' : RedisMgr}

/-- What a call finds under a key. -/
def view (s : RedisMgr) (key : Bytes) : Entry :=
  match s.conns.lookup key with
  | none => .absent
  | some c => ((s.objs[c]?).map RdsConnection.entry).getD .unusable

/-- A write to a connection is seen under its own key. -/
theorem view_setObj {c : ℕ} {key : Bytes} (hown : ∀ key', s.conns.lookup key' = some c → key' = key)
    (f : RdsConnection → RdsConnection) {key' : Bytes} (hne : key' ≠ key) :
    (s.setObj c f).view key' = s.view key' := by
  unfold view
  cases hc : s.conns.lookup key' with
  | none => rw [show (s.setObj c f).conns = s.conns from rfl, hc]
  | some c' =>
    have hcc : c ≠ c' := fun h => hne (hown key' (h ▸ hc))
    simp only [show (s.setObj c f).conns = s.conns from rfl, hc, getElem?_setObj_of_ne hcc]

/-- A write that does not change what a call finds. -/
theorem view_setObj_same {c : ℕ} {f : RdsConnection → RdsConnection}
    (hf : ∀ obj, s.objs[c]? = some obj → (f obj).entry = obj.entry) :
    (s.setObj c f).view = s.view := by
  funext key
  unfold view
  rw [show (s.setObj c f).conns = s.conns from rfl]
  cases s.conns.lookup key with
  | none => rfl
  | some i =>
    by_cases hci : c = i
    · subst hci
      cases hobj : s.objs[c]? with
      | none => simp only [getElem?_setObj, hobj, Option.map_none]
      | some obj => simp only [getElem?_setObj_self hobj, hobj, Option.map_some, hf obj hobj]
    · simp only [getElem?_setObj_of_ne hci]

/-- A connection that is picked, seen under its key. -/
theorem Linked.picked_view (h : Linked s) {key : Bytes} {s₁ : RedisMgr} {c : ℕ}
    {obj : RdsConnection} (hpick : Picked s key s₁ c obj) : s₁.view = s.view := by
  cases hpick with
  | closed _ _ _ _ _ _ => rfl
  | fresh _ =>
    funext key'
    unfold RedisMgr.view
    cases hc : s.conns.lookup key' with
    | none => rfl
    | some c =>
      obtain ⟨obj, hobj⟩ := h.conns key' c hc
      simp only [hobj, Heap.getElem?_snoc_of_some hobj]

theorem deleteClosed_of {c : ℕ} {obj : RdsConnection} (hobj : s.objs[c]? = some obj)
    (hctx : obj.ctx = none) (hwalk : obj.walking = false) :
    s.deleteClosed c = some (s.setObj c fun obj => { obj.clear with deleted := true }) := by
  simp only [deleteClosed, hobj, hctx, hwalk, Option.isSome_none, Bool.or_false,
    Bool.false_eq_true, if_false]

/-- `get_conn`, from `connect` on, of a closed connection. -/
theorem openConn_eq {c : ℕ} {obj : RdsConnection} (hobj : s.objs[c]? = some obj)
    (hctx : obj.ctx = none) (hwalk : obj.walking = false) (host : Bytes) (port : ℤ)
    (r : ConnectReply) :
    s.openConn c host port r =
      let failed := s.setObj c fun obj => { obj.clear with deleted := true }
      if host = [] ∨ port = 0 then some (none, failed)
      else
        match r with
        | .null => none
        | .error | .attachFailed => some (none, failed)
        | .ok => some (some c, { s.opened c host port with
            conns := s.conns.insert (formatAddr host port) c }) := by
  have hdel := deleteClosed_of hobj hctx hwalk
  have hdelClear : (s.setObj c RdsConnection.clear).deleteClosed c =
      some (s.setObj c fun obj => { obj.clear with deleted := true }) :=
    (deleteClosed_of (getElem?_setObj_self hobj _) rfl hwalk).trans
      (congrArg some (setObj_clear_deleted s c))
  unfold openConn connect
  by_cases hinvalid : host = [] ∨ port = 0
  · simp only [if_pos hinvalid, hdel, Option.map_some]
  · simp only [if_neg hinvalid, hobj, hctx, hwalk, Option.isSome_none, Bool.or_false,
      Bool.false_eq_true, if_false]
    cases r with
    | null => rfl
    | error => simp only [hdelClear, Option.map_some]
    | attachFailed => simp only [hdelClear, Option.map_some]
    | ok => rfl

/-- What a call finds is the entry of the connection under its key. -/
theorem view_of_lookup {key : Bytes} {c : ℕ} {obj : RdsConnection}
    (hconn : s.conns.lookup key = some c) (hobj : s.objs[c]? = some obj) :
    s.view key = obj.entry := by
  simp only [view, hconn, hobj, Option.map_some, Option.getD_some]

/-- `RdsConnection::send_to` on an open connection, which is not seen under any key. -/
theorem Linked.answer_view (h : Linked s) {c : ℕ} {obj : RdsConnection} (task : RdsTask)
    (hobj : s.objs[c]? = some obj) (hentry : obj.entry = .active) (hargv : task.argv ≠ [])
    (accepts : Bool) : ∃ b s', s.connSendTo c task accepts = some (b, s') ∧ s'.view = s.view := by
  have hopen : obj.state ≠ .closed := by
    intro hclosed
    simp only [RdsConnection.entry, hclosed] at hentry
    split_ifs at hentry
  obtain ⟨-, k, ctx, hk, -, -, -⟩ := h.active c obj hobj hopen
  unfold connSendTo
  simp only [hobj, hk]
  cases hstate : obj.state with
  | closed => exact absurd hstate hopen
  | connecting =>
    have hwalk : obj.walking = false := by
      by_contra hwalk
      simp [RdsConnection.entry, hstate, Bool.not_eq_false _ ▸ hwalk] at hentry
    simp only [if_neg hargv, hwalk, Bool.false_eq_true, if_false]
    exact ⟨true, _, rfl, view_setObj_same fun _ _ => rfl⟩
  | connected =>
    cases accepts with
    | true => exact ⟨true, _, rfl, rfl⟩
    | false => exact ⟨false, _, rfl, rfl⟩

/-- A call whose connection is open. -/
theorem Linked.sendTo_of_got (h : Linked s) {call : RdsSend} {node : Bytes} {fn c : ℕ}
    {s₁ : RedisMgr} {obj : RdsConnection} (hnode : call.node = some node) (hfn : call.fn = some fn)
    (hargv : call.argv ≠ [])
    (hget : getConn { s with nextSend := s.nextSend + 1 } node call.connect = some (some c, s₁))
    (hobj : s₁.objs[c]? = some obj) (hentry : obj.entry = .active) :
    (s.sendTo call).map (fun p => p.2.view) = some s₁.view := by
  have hcounted : Linked { s with nextSend := s.nextSend + 1 } := h.of_fields rfl rfl rfl
  have hlinked : Linked s₁ := hcounted.got (got_of_getConn hget)
  have hnoted : Linked
      { s₁ with got := s₁.got ++ [(node, (s₁.objs[c]?).bind RdsConnection.addr)] } :=
    hlinked.of_fields rfl rfl rfl
  obtain ⟨b, s₂, hsent, hview⟩ := hnoted.answer_view
    { id := s.nextSend, argv := call.argv, fn := fn, privdata := call.privdata }
    hobj hentry hargv call.accepts
  unfold sendTo
  simp only [hnode, hfn, if_neg hargv, hget, hsent]
  cases b with
  | true => exact congrArg some hview
  | false => exact congrArg some hview

/-- A call that does not get a connection. -/
theorem sendTo_of_refused {call : RdsSend} {node : Bytes} {fn : ℕ} {s₁ : RedisMgr}
    (hnode : call.node = some node) (hfn : call.fn = some fn) (hargv : call.argv ≠ [])
    (hget : getConn { s with nextSend := s.nextSend + 1 } node call.connect = some (none, s₁)) :
    (s.sendTo call).map (fun p => p.2.view) = some s₁.view := by
  unfold sendTo
  simp only [hnode, hfn, if_neg hargv, hget, Option.map_some]

theorem sendTo_of_none {call : RdsSend} {node : Bytes} {fn : ℕ}
    (hnode : call.node = some node) (hfn : call.fn = some fn) (hargv : call.argv ≠ [])
    (hget : getConn { s with nextSend := s.nextSend + 1 } node call.connect = none) :
    (s.sendTo call).map (fun p => p.2.view) = none := by
  unfold sendTo
  simp only [hnode, hfn, if_neg hargv, hget, Option.map_none]

/-- A connection that was opened, seen under its key. -/
theorem view_opened {c : ℕ} {obj : RdsConnection} {key : Bytes} (hobj : s.objs[c]? = some obj)
    (hdeleted : obj.deleted = false) (hwalk : obj.walking = false)
    (hown : ∀ key', s.conns.lookup key' = some c → key' = key) (host : Bytes) (port : ℤ) :
    view { s.opened c host port with conns := s.conns.insert key c } =
      Function.update s.view key .active := by
  funext key'
  by_cases hkey : key' = key
  · rw [hkey, Function.update_self]
    refine (view_of_lookup (s := { s.opened c host port with conns := s.conns.insert key c })
      ((FiniteMap.lookup_insert ..).trans (if_pos rfl)) (getElem?_setObj_self hobj _)).trans ?_
    simp only [RdsConnection.entry, RdsConnection.clear, hdeleted, hwalk]
    rfl
  · rw [Function.update_of_ne hkey, ← view_setObj hown _ hkey]
    unfold view
    simp only [FiniteMap.lookup_insert, if_neg hkey]
    rfl

/-- A closed connection that was deleted, seen under its key. -/
theorem view_deleted {c : ℕ} {obj : RdsConnection} {key : Bytes} (hobj : s.objs[c]? = some obj)
    (hown : ∀ key', s.conns.lookup key' = some c → key' = key) :
    (s.setObj c fun obj => { obj.clear with deleted := true }).view =
      Function.update s.view key (if s.conns.lookup key = some c then .unusable
        else s.view key) := by
  funext key'
  by_cases hkey : key' = key
  · rw [hkey, Function.update_self]
    split_ifs with hconn
    · refine (view_of_lookup (s := s.setObj c _) hconn (getElem?_setObj_self hobj _)).trans ?_
      simp only [RdsConnection.entry, Bool.true_or, if_true]
    · unfold view
      rw [show (s.setObj c _).conns = s.conns from rfl]
      cases hc : s.conns.lookup key with
      | none => rfl
      | some c' =>
        have hcc : c ≠ c' := fun h => hconn (h ▸ hc)
        simp only [getElem?_setObj_of_ne hcc]
  · rw [Function.update_of_ne hkey, view_setObj hown _ hkey]

/-- A call that connects, given what it finds. -/
theorem Linked.sendTo_connect (h : Linked s) {call : RdsSend} {node : Bytes} {fn c : ℕ}
    {s₁ : RedisMgr} {obj : RdsConnection} {host : Bytes} {port : ℤ}
    (hnode : call.node = some node) (hfn : call.fn = some fn) (hargv : call.argv ≠ [])
    (hpick : Picked { s with nextSend := s.nextSend + 1 } (formatAddr host port) s₁ c obj)
    (hwalk : obj.walking = false)
    (hget : getConn { s with nextSend := s.nextSend + 1 } node call.connect =
      s₁.openConn c host port call.connect) :
    (s.sendTo call).map (fun p => p.2.view) =
      ((s.view (formatAddr host port)).connect (!(host = [] || port = 0)) call.connect).map
        (Function.update s.view (formatAddr host port)) := by
  have hcounted : Linked { s with nextSend := s.nextSend + 1 } := h.of_fields rfl rfl rfl
  obtain ⟨hlinked, hstate, hdeleted, hown⟩ := hcounted.picked hpick
  have hview : s₁.view = view { s with nextSend := s.nextSend + 1 } := hcounted.picked_view hpick
  change s₁.view = s.view at hview
  have hfound : s.view (formatAddr host port) =
      if s₁.conns.lookup (formatAddr host port) = some c then .closed else .absent := by
    cases hpick with
    | fresh hconn =>
      have hconn' : s.conns.lookup (formatAddr host port) = none := hconn
      simp only [view, hconn', reduceCtorEq, if_false]
    | closed c obj hconn hobj _ _ =>
      have hconn' : s.conns.lookup (formatAddr host port) = some c := hconn
      rw [view_of_lookup hconn' hobj, if_pos hconn']
      simp only [RdsConnection.entry, hdeleted, hwalk, hstate, Bool.false_and, Bool.or_false,
        Bool.false_eq_true, if_false, if_true]
  have hfailed := view_deleted hpick.hobj hown
  have hopened := view_opened hpick.hobj hdeleted hwalk hown host port
  rw [hview] at hfailed hopened
  have hopen := openConn_eq hpick.hobj (hlinked.closed c obj hpick.hobj hstate) hwalk host port
    call.connect
  -- A connect that fails deletes the connection, and the map keeps its entry.
  have hrefused : getConn { s with nextSend := s.nextSend + 1 } node call.connect =
      some (none, s₁.setObj c fun obj => { obj.clear with deleted := true }) →
      (s.sendTo call).map (fun p => p.2.view) = some (Function.update s.view (formatAddr host port)
        (if s₁.conns.lookup (formatAddr host port) = some c then .unusable else .absent)) := by
    intro hget
    rw [sendTo_of_refused hnode hfn hargv hget, hfailed]
    by_cases hconn : s₁.conns.lookup (formatAddr host port) = some c
    · rw [if_pos hconn, if_pos hconn]
    · rw [if_neg hconn, if_neg hconn, hfound, if_neg hconn]
  by_cases hinvalid : host = [] ∨ port = 0
  · have hvalid : (!(decide (host = []) || decide (port = 0))) = false := by
      rw [← Bool.decide_or, decide_eq_true hinvalid]
      rfl
    simp only [if_pos hinvalid] at hopen
    rw [hrefused (hget.trans hopen), hfound, hvalid]
    split_ifs <;> rfl
  · have hvalid : (!(decide (host = []) || decide (port = 0))) = true := by
      rw [← Bool.decide_or, decide_eq_false hinvalid]
      rfl
    simp only [if_neg hinvalid] at hopen
    rw [hfound, hvalid]
    rw [hopen] at hget
    cases hr : call.connect with
    | null =>
      rw [sendTo_of_none hnode hfn hargv (by rw [hget, hr])]
      split_ifs <;> rfl
    | error =>
      rw [hrefused (by rw [hget, hr])]
      split_ifs <;> rfl
    | attachFailed =>
      rw [hrefused (by rw [hget, hr])]
      split_ifs <;> rfl
    | ok =>
      have hgot : getConn { s with nextSend := s.nextSend + 1 } node call.connect =
          some (some c, { s₁.opened c host port with
            conns := s₁.conns.insert (formatAddr host port) c }) := by rw [hget, hr]
      refine (h.sendTo_of_got hnode hfn hargv hgot (getElem?_setObj_self hpick.hobj _) ?_).trans ?_
      · simp only [RdsConnection.entry, RdsConnection.clear, hdeleted, hwalk]
        rfl
      · rw [hopened]
        split_ifs <;> rfl

/-- A closed connection whose list is being walked cannot be connected. -/
theorem openConn_of_walking (s : RedisMgr) {c : ℕ} {obj : RdsConnection} (hobj : s.objs[c]? = some obj)
    (hwalk : obj.walking = true) (host : Bytes) (port : ℤ) (r : ConnectReply) :
    s.openConn c host port r = none := by
  unfold openConn connect
  by_cases hinvalid : host = [] ∨ port = 0
  · simp only [if_pos hinvalid, deleteClosed, hobj, hwalk, Bool.or_true, if_true, Option.map_none]
  · simp only [if_neg hinvalid, hobj, hwalk, Bool.or_true, if_true]

/-- A command that would have to wait in a list that is being walked. -/
theorem connSendTo_of_walking (s : RedisMgr) {c k : ℕ} {obj : RdsConnection} (task : RdsTask)
    (hobj : s.objs[c]? = some obj) (hctx : obj.ctx = some k) (hstate : obj.state = .connecting)
    (hwalk : obj.walking = true) (hargv : task.argv ≠ []) (accepts : Bool) :
    s.connSendTo c task accepts = none := by
  unfold connSendTo
  simp only [hobj, hctx, hstate, if_neg hargv, hwalk, if_true]

/-- A call that finds a connection. -/
theorem Linked.sendTo_entry (h : Linked s) {call : RdsSend} {node : Bytes} {fn c : ℕ}
    {obj : RdsConnection} {host : Bytes} {port : ℤ}
    (hnode : call.node = some node) (hfn : call.fn = some fn) (hargv : call.argv ≠ [])
    (haddr : s.addrs.lookup node = some (host, port))
    (hconn : s.conns.lookup (formatAddr host port) = some c) (hobj : s.objs[c]? = some obj) :
    (s.sendTo call).map (fun p => p.2.view) =
      ((s.view (formatAddr host port)).connect (!(host = [] || port = 0)) call.connect).map
        (Function.update s.view (formatAddr host port)) := by
  have hview := view_of_lookup hconn hobj
  -- the connection of the node decides: deleted, closed, or open
  cases hdeleted : obj.deleted with
  | true =>
    have hentry : obj.entry = .unusable := by
      simp only [RdsConnection.entry, hdeleted, Bool.true_or, if_true]
    rw [hview, hentry]
    exact sendTo_of_none hnode hfn hargv
      (by simp only [getConn, haddr, hconn, hobj, hdeleted, if_true])
  | false =>
    -- a closed connection is opened again, unless its loop still runs
    by_cases hstate : obj.state = .closed
    · have hactive : obj.isActive = false := by
        rw [Bool.eq_false_iff, Ne, RdsConnection.isActive_iff, not_not]
        exact hstate
      have hget : getConn { s with nextSend := s.nextSend + 1 } node call.connect =
          openConn { s with nextSend := s.nextSend + 1 } c host port call.connect := by
        simp only [getConn, haddr, hconn, hobj, hdeleted, hactive, Bool.false_eq_true, if_false]
      cases hwalk : obj.walking with
      | true =>
        have hentry : obj.entry = .unusable := by
          simp [RdsConnection.entry, hwalk, hstate]
        rw [hview, hentry]
        exact sendTo_of_none hnode hfn hargv
          (hget.trans (openConn_of_walking { s with nextSend := s.nextSend + 1 } hobj hwalk _ _ _))
      | false =>
        exact h.sendTo_connect hnode hfn hargv (.closed c obj hconn hobj hdeleted hactive) hwalk hget
    · have hget : getConn { s with nextSend := s.nextSend + 1 } node call.connect =
          some (some c, { s with nextSend := s.nextSend + 1 }) := by
        simp only [getConn, haddr, hconn, hobj, hdeleted, RdsConnection.isActive_iff.mpr hstate,
          Bool.false_eq_true, if_false, if_true]
      -- an open one takes the command, unless it connects inside its loop
      by_cases hbusy : obj.walking = true ∧ obj.state ≠ .connected
      · have hconnecting : obj.state = .connecting := by
          cases hs : obj.state with
          | connecting => rfl
          | connected => exact absurd hs hbusy.2
          | closed => exact absurd hs hstate
        have hentry : obj.entry = .unusable := by
          simp [RdsConnection.entry, hbusy.1, hconnecting]
        obtain ⟨-, k, -, hk, -⟩ := h.active c obj hobj hstate
        rw [hview, hentry]
        unfold sendTo
        simp only [hnode, hfn, if_neg hargv, hget]
        rw [connSendTo_of_walking { s with
          nextSend := s.nextSend + 1
          got := s.got ++ [(node, (s.objs[c]?).bind RdsConnection.addr)] }
          { id := s.nextSend, argv := call.argv, fn := fn, privdata := call.privdata }
          hobj hk hconnecting hbusy.1 hargv]
        rfl
      · have hentry : obj.entry = .active := by
          have hbusy' : (obj.walking && decide (obj.state ≠ .connected)) = false := by
            rw [Bool.eq_false_iff, Ne, Bool.and_eq_true, decide_eq_true_iff]
            exact hbusy
          simp only [RdsConnection.entry, hdeleted, hbusy', hstate, Bool.or_false,
            Bool.false_eq_true, if_false]
        rw [hview, hentry]
        refine (h.sendTo_of_got hnode hfn hargv hget hobj hentry).trans (congrArg some ?_)
        rw [← hentry, ← hview, Function.update_eq_self]
        rfl

/-- **What a call finds decides it**: whether it has a meaning, and what the next call finds. -/
theorem Linked.sendTo_view (h : Linked s) (call : RdsSend) :
    (s.sendTo call).map (fun p => p.2.view) = callView s.addrs s.view call := by
  unfold callView
  cases hnode : call.node with
  | none =>
    unfold sendTo
    simp only [hnode]
    rfl
  | some node =>
    cases hfn : call.fn with
    | none =>
      unfold sendTo
      simp only [hnode, hfn]
      rfl
    | some fn =>
      by_cases hargv : call.argv = []
      · unfold sendTo
        simp only [hnode, hfn, if_pos hargv]
        rfl
      · simp only [if_neg hargv]
        cases haddr : s.addrs.lookup node with
        | none =>
          have hget : getConn { s with nextSend := s.nextSend + 1 } node call.connect =
              some (none, { s with nextSend := s.nextSend + 1 }) := by simp only [getConn, haddr]
          exact (sendTo_of_refused hnode hfn hargv hget).trans rfl
        | some addr =>
          obtain ⟨host, port⟩ := addr
          cases hconn : s.conns.lookup (formatAddr host port) with
          | none =>
            exact h.sendTo_connect hnode hfn hargv (.fresh hconn) rfl
              (by simp only [getConn, haddr, hconn])
          | some c =>
            obtain ⟨obj, hobj⟩ := h.conns _ c hconn
            exact h.sendTo_entry hnode hfn hargv haddr hconn hobj

/-- The same of the calls of a callback. -/
theorem Linked.runSends_view (h : Linked s) (calls : List RdsSend) :
    (s.runSends calls).map view = callsView s.addrs s.view calls := by
  induction calls generalizing s with
  | nil => rfl
  | cons call calls ih =>
    have hview := h.sendTo_view call
    unfold runSends callsView
    rw [← hview]
    cases hsend : s.sendTo call with
    | none => rfl
    | some p =>
      obtain ⟨b, s₁⟩ := p
      have hsent := sent_of_sendTo hsend
      simp only [Option.map_some, Option.bind_some]
      rw [ih (h.sent hsent), (Framed.of_sent hsent).addrs]

theorem Linked.runSends (h : Linked s) {calls : List RdsSend}
    (hrun : s.runSends calls = some s') : Linked s' ∧ Framed s s' := by
  induction calls generalizing s with
  | nil =>
    cases hrun
    exact ⟨h, .refl _⟩
  | cons call calls ih =>
    unfold RedisMgr.runSends at hrun
    split at hrun
    · cases hrun
    · next b s₁ hsend =>
      have hsent := sent_of_sendTo hsend
      obtain ⟨hlinked, hframed⟩ := ih (h.sent hsent) hrun
      exact ⟨hlinked, (Framed.of_sent hsent).trans hframed⟩

end RedisMgr

end Kimserver
