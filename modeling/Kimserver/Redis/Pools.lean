import Kimserver.Db.Pools
import Kimserver.Lib.Heap
import Kimserver.Redis.RedisMgr

/-!
# The connections to the Redis nodes

There is one connection for each key, and the key is formatted from the host and the port of a
node and cut to 63 characters. A connection is only ever opened to the address of a configured
node with its key. Where no two nodes with one key have different addresses, every connection
goes to the address it is asked for.

## Main definitions

* `AddrsSeparate`: nodes with one key have one address
* `RedisMgr.Pooled`: the invariant, which needs no condition on the keys

## Main results

* `RedisMgr.Pooled.step`: every event keeps the invariant
* `redis_routed_iff`: when the connections go to their addresses in all runs
* `pools_routed_iff`: the same of both managers, this one and that of the databases
-/

namespace Kimserver

/-- A configured node that has the key of an address that can be opened has this address. -/
def AddrsSeparate (addrs : FiniteMap Bytes (Bytes × ℤ)) : Prop :=
  ∀ node node' addr addr', addrs.lookup node = some addr → addrs.lookup node' = some addr' →
    Openable addr → formatAddr addr.1 addr.2 = formatAddr addr'.1 addr'.2 → addr = addr'

namespace RedisMgr

variable {addrs : FiniteMap Bytes (Bytes × ℤ)} {s s' : RedisMgr}

/-- What a connection that was returned for a node was opened to. -/
def Routed (addrs : FiniteMap Bytes (Bytes × ℤ)) (s : RedisMgr) : Prop :=
  ∀ node r, (node, r) ∈ s.got → ∃ addr, addrs.lookup node = some addr ∧ r = some addr

/-- Nodes with different addresses have no connection in common. -/
def Unshared (addrs : FiniteMap Bytes (Bytes × ℤ)) (s : RedisMgr) : Prop :=
  ∀ node node' addr addr' c c', addrs.lookup node = some addr → addrs.lookup node' = some addr' →
    addr ≠ addr' → s.conns.lookup (formatAddr addr.1 addr.2) = some c →
    s.conns.lookup (formatAddr addr'.1 addr'.2) = some c' → c ≠ c'

/-- This address has the key, can be opened, and is that of a configured node. -/
def Keyed (addrs : FiniteMap Bytes (Bytes × ℤ)) (key : Bytes) (addr : Bytes × ℤ) : Prop :=
  (∃ node, addrs.lookup node = some addr) ∧ Openable addr ∧ formatAddr addr.1 addr.2 = key

/-- Every connection was opened to the address of a node with its key. -/
structure Pooled (addrs : FiniteMap Bytes (Bytes × ℤ)) (s : RedisMgr) : Prop where
  known : ∀ node addr, s.addrs.lookup node = some addr → addrs.lookup node = some addr
  conns : ∀ key c, s.conns.lookup key = some c →
    ∃ obj addr, s.objs[c]? = some obj ∧ obj.addr = some addr ∧ Keyed addrs key addr
  inj : ∀ key key' c, s.conns.lookup key = some c → s.conns.lookup key' = some c → key = key'
  active : ∀ (c : ℕ) (obj : RdsConnection), s.objs[c]? = some obj → obj.isActive = true →
    obj.addr.isSome = true
  data : ∀ (k : ℕ) (ctx : RedisCtx), s.ctxs[k]? = some ctx →
    ∃ obj, s.objs[ctx.data]? = some obj ∧ obj.addr.isSome = true
  got : ∀ node r, (node, r) ∈ s.got → ∃ addr opened,
    addrs.lookup node = some addr ∧ r = some opened ∧ Keyed addrs (formatAddr addr.1 addr.2) opened

/-- A change that no connection's address takes part in. -/
structure SameAddrs (s s' : RedisMgr) : Prop where
  addrs : s'.addrs = s.addrs
  conns : s'.conns = s.conns
  got : s'.got = s.got
  objs : ∀ (c : ℕ) (obj : RdsConnection), s.objs[c]? = some obj →
    ∃ obj', s'.objs[c]? = some obj' ∧ obj'.addr = obj.addr
  active : ∀ (c : ℕ) (obj' : RdsConnection), s'.objs[c]? = some obj' → obj'.isActive = true →
    obj'.addr.isSome = true ∨ ∃ obj, s.objs[c]? = some obj ∧ obj.isActive = true
  data : ∀ (k : ℕ) (ctx' : RedisCtx), s'.ctxs[k]? = some ctx' →
    ∃ ctx, s.ctxs[k]? = some ctx ∧ ctx.data = ctx'.data

theorem Pooled.congr (h : Pooled addrs s) (hs : SameAddrs s s') : Pooled addrs s' where
  known := hs.addrs ▸ h.known
  conns key c hc := by
    obtain ⟨obj, addr, hobj, haddr, hkeyed⟩ := h.conns key c (hs.conns ▸ hc)
    obtain ⟨obj', hobj', heq⟩ := hs.objs c obj hobj
    exact ⟨obj', addr, hobj', heq.trans haddr, hkeyed⟩
  inj := hs.conns ▸ h.inj
  active c obj' hobj' hactive := by
    rcases hs.active c obj' hobj' hactive with hsome | ⟨obj, hobj, hactive⟩
    · exact hsome
    · obtain ⟨obj'', hobj'', heq⟩ := hs.objs c obj hobj
      rw [hobj'] at hobj''
      obtain rfl := Option.some.inj hobj''
      rw [heq]
      exact h.active c obj hobj hactive
  data k ctx' hctx' := by
    obtain ⟨ctx, hctx, hdata⟩ := hs.data k ctx' hctx'
    obtain ⟨obj, hobj, hsome⟩ := h.data k ctx hctx
    obtain ⟨obj', hobj', heq⟩ := hs.objs _ obj hobj
    exact ⟨obj', hdata ▸ hobj', heq ▸ hsome⟩
  got := hs.got ▸ h.got

/-- Writing members of a connection other than its address. -/
theorem sameAddrs_setObj (s : RedisMgr) (c : ℕ) {f : RdsConnection → RdsConnection}
    (haddr : ∀ obj, (f obj).addr = obj.addr)
    (hactive : ∀ obj, s.objs[c]? = some obj → (f obj).isActive = true →
      obj.isActive = true ∨ obj.addr.isSome = true) : SameAddrs s (s.setObj c f) where
  addrs := rfl
  conns := rfl
  got := rfl
  objs i obj hobj := by
    refine ⟨if c = i then f obj else obj, by rw [getElem?_setObj, hobj, Option.map_some], ?_⟩
    split_ifs
    · exact haddr obj
    · rfl
  active i obj' hobj' hact := by
    rw [getElem?_setObj, Option.map_eq_some_iff] at hobj'
    obtain ⟨obj, hobj, rfl⟩ := hobj'
    split_ifs at hact ⊢ with hi
    · obtain rfl := hi
      rw [haddr]
      rcases hactive obj hobj hact with hact | hsome
      · exact Or.inr ⟨obj, hobj, hact⟩
      · exact Or.inl hsome
    · exact Or.inr ⟨obj, hobj, hact⟩
  data k ctx hctx := ⟨ctx, hctx, rfl⟩

/-- Writing members of a context other than its connection. -/
theorem sameAddrs_setCtx (s : RedisMgr) (k : ℕ) {f : RedisCtx → RedisCtx}
    (hdata : ∀ ctx, (f ctx).data = ctx.data) : SameAddrs s (s.setCtx k f) where
  addrs := rfl
  conns := rfl
  got := rfl
  objs c obj hobj := ⟨obj, hobj, rfl⟩
  active c obj hobj hact := Or.inr ⟨obj, hobj, hact⟩
  data i ctx' hctx' := by
    unfold setCtx at hctx'
    rw [List.getElem?_modify] at hctx'
    obtain ⟨ctx, hctx, rfl⟩ := Option.map_eq_some_iff.mp hctx'
    refine ⟨ctx, hctx, ?_⟩
    split_ifs
    · exact (hdata ctx).symm
    · rfl

/-- Members that are not about connections. -/
theorem Pooled.of_fields (h : Pooled addrs s) (haddrs : s'.addrs = s.addrs)
    (hconns : s'.conns = s.conns) (hobjs : s'.objs = s.objs) (hctxs : s'.ctxs = s.ctxs)
    (hgot : s'.got = s.got) : Pooled addrs s' :=
  h.congr
    { addrs := haddrs
      conns := hconns
      got := hgot
      objs := fun _ obj hobj => ⟨obj, hobjs ▸ hobj, rfl⟩
      active := fun _ obj hobj hact => Or.inr ⟨obj, hobjs ▸ hobj, hact⟩
      data := fun _ ctx hctx => ⟨ctx, hctxs ▸ hctx, rfl⟩ }

/-! ## Calls -/

theorem Pooled.picked (h : Pooled addrs s) {key : Bytes} {s₁ : RedisMgr} {c : ℕ}
    {obj : RdsConnection} (hpick : Picked s key s₁ c obj) :
    Pooled addrs s₁ ∧ s₁.addrs = s.addrs ∧ s₁.got = s.got ∧
      ∀ key', s₁.conns.lookup key' = some c → key' = key := by
  cases hpick with
  | fresh _ =>
    refine ⟨⟨h.known, ?_, h.inj, ?_, ?_, h.got⟩, rfl, rfl, ?_⟩
    · intro key' c hc
      obtain ⟨obj, addr, hobj, haddr, hkeyed⟩ := h.conns key' c hc
      exact ⟨obj, addr, Heap.getElem?_snoc_of_some hobj _, haddr, hkeyed⟩
    · intro c obj hobj hact
      rcases Heap.getElem?_snoc_cases hobj with hold | ⟨-, rfl⟩
      · exact h.active c obj hold hact
      · cases hact
    · intro k ctx hctx
      obtain ⟨obj, hobj, hsome⟩ := h.data k ctx hctx
      exact ⟨obj, Heap.getElem?_snoc_of_some hobj _, hsome⟩
    · intro key' hc
      -- No entry points to an object that did not exist.
      obtain ⟨obj, -, hobj, -⟩ := h.conns key' _ hc
      exact absurd (List.getElem?_eq_some_iff.mp hobj).1 (Nat.lt_irrefl _)
  | closed c obj hconn _ _ _ => exact ⟨h, rfl, rfl, fun key' hc => h.inj key' key c hc hconn⟩

/-- A connection that is opened to an address with its key. -/
theorem Pooled.opened (h : Pooled addrs s) {c : ℕ} {obj : RdsConnection} {host : Bytes} {port : ℤ}
    (hobj : s.objs[c]? = some obj)
    (hown : ∀ key, s.conns.lookup key = some c → key = formatAddr host port)
    (hkeyed : Keyed addrs (formatAddr host port) (host, port)) :
    Pooled addrs { s.opened c host port with conns := s.conns.insert (formatAddr host port) c } := by
  have hnew : ∀ i obj, s.objs[i]? = some obj →
      ∃ obj', (s.opened c host port).objs[i]? = some obj' ∧
        (i = c ∧ obj'.addr = some (host, port) ∨ i ≠ c ∧ obj' = obj) := by
    intro i obj hi
    by_cases hic : i = c
    · subst hic
      exact ⟨_, getElem?_setObj_self hi _, Or.inl ⟨rfl, rfl⟩⟩
    · exact ⟨obj, (getElem?_setObj_of_ne (Ne.symm hic) s _).trans hi, Or.inr ⟨hic, rfl⟩⟩
  refine ⟨h.known, ?_, ?_, ?_, ?_, h.got⟩
  · intro key' c' hc'
    rw [FiniteMap.lookup_insert] at hc'
    split_ifs at hc' with hkey
    · obtain rfl := Option.some.inj hc'
      obtain ⟨obj', hobj', ⟨-, haddr⟩ | ⟨hne, -⟩⟩ := hnew c obj hobj
      · exact ⟨obj', (host, port), hobj', haddr, hkey ▸ hkeyed⟩
      · exact absurd rfl hne
    · obtain ⟨o, addr, ho, haddr, hkeyed'⟩ := h.conns key' c' hc'
      obtain ⟨obj', hobj', ⟨rfl, -⟩ | ⟨-, rfl⟩⟩ := hnew c' o ho
      · exact absurd (hown key' hc') hkey
      · exact ⟨_, addr, hobj', haddr, hkeyed'⟩
  · exact FiniteMap.insert_inj h.inj hown
  · intro i obj' hi hact
    rcases Heap.getElem?_modify_cases hi with ⟨-, -, -, rfl⟩ | ⟨-, hold⟩
    · rfl
    · exact h.active i obj' hold hact
  · intro k ctx hctx
    have hdata : ∃ o, s.objs[ctx.data]? = some o ∧ (ctx.data = c ∨ o.addr.isSome = true) := by
      rcases Heap.getElem?_snoc_cases hctx with hold | ⟨-, rfl⟩
      · obtain ⟨o, ho, hsome⟩ := h.data k ctx hold
        exact ⟨o, ho, Or.inr hsome⟩
      · exact ⟨obj, hobj, Or.inl rfl⟩
    obtain ⟨o, ho, hcase⟩ := hdata
    obtain ⟨obj', hobj', ⟨-, haddr⟩ | ⟨hne, rfl⟩⟩ := hnew _ o ho
    · exact ⟨obj', hobj', by rw [haddr]; rfl⟩
    · exact ⟨obj', hobj', hcase.resolve_left hne⟩

/-- `get_conn` keeps the pool, and returns a connection that was opened to an address with the
key of the node. -/
theorem Pooled.got_conn (h : Pooled addrs s) {node : Bytes} {r : Option ℕ}
    (hgot : Got s node r s') :
    Pooled addrs s' ∧ s'.got = s.got ∧ ∀ c, r = some c → ∃ addr obj opened,
      addrs.lookup node = some addr ∧ s'.objs[c]? = some obj ∧ obj.addr = some opened ∧
        Keyed addrs (formatAddr addr.1 addr.2) opened := by
  cases hgot with
  | unknown _ => exact ⟨h, rfl, fun c hc => by cases hc⟩
  | active host port c obj haddr hconn hobj _ hactive =>
    refine ⟨h, rfl, ?_⟩
    intro c' hc
    cases hc
    obtain ⟨obj', opened, hobj', hopened, hkeyed⟩ := h.conns _ c hconn
    exact ⟨(host, port), obj', opened, h.known node _ haddr, hobj', hopened, hkeyed⟩
  | failed host port s₁ c obj haddr hpick _ _ =>
    obtain ⟨hpool, -, hgot, -⟩ := h.picked hpick
    refine ⟨hpool.congr (sameAddrs_setObj s₁ c ?_ ?_), hgot, fun c hc => by cases hc⟩
    · intro obj
      rfl
    · intro obj _ hact
      cases hact
  | opened host port s₁ c obj haddr hvalid hpick _ _ =>
    obtain ⟨hpool, -, hgot, hown⟩ := h.picked hpick
    have hkeyed : Keyed addrs (formatAddr host port) (host, port) :=
      ⟨⟨node, h.known node _ haddr⟩, hvalid, rfl⟩
    refine ⟨hpool.opened hpick.hobj hown hkeyed, hgot, ?_⟩
    intro c' hc
    cases hc
    exact ⟨(host, port), _, (host, port), h.known node _ haddr,
      getElem?_setObj_self hpick.hobj _, rfl, hkeyed⟩

theorem Pooled.conn_sent (h : Pooled addrs s) {c : ℕ} {task : RdsTask} {b : Bool}
    (hsent : ConnSent s c task b s') : Pooled addrs s' := by
  cases hsent with
  | refused => exact h
  | waits obj _ _ _ =>
    refine h.congr (sameAddrs_setObj s c ?_ ?_)
    · intro obj
      rfl
    · intro obj _ hact
      exact Or.inl hact
  | sent obj k _ _ _ =>
    refine h.congr (sameAddrs_setCtx s k ?_)
    intro ctx
    rfl

theorem Pooled.sent (h : Pooled addrs s) {call : RdsSend} {b : Bool} (hsent : Sent s call b s') :
    Pooled addrs s' := by
  have hcounted : Pooled addrs { s with nextSend := s.nextSend + 1 } :=
    h.of_fields rfl rfl rfl rfl rfl
  cases hsent with
  | invalid => exact hcounted
  | refused node s' hgot => exact (hcounted.got_conn hgot).1
  | answered node fn c b s₁ s₂ hgot hconn =>
    obtain ⟨hpool, -, hret⟩ := hcounted.got_conn hgot
    obtain ⟨addr, obj, opened, haddr, hobj, hopened, hkeyed⟩ := hret c rfl
    have hnoted : Pooled addrs
        { s₁ with got := s₁.got ++ [(node, (s₁.objs[c]?).bind RdsConnection.addr)] } := by
      refine ⟨hpool.known, hpool.conns, hpool.inj, hpool.active, hpool.data, ?_⟩
      intro node' r hmem
      rcases List.mem_append.mp hmem with hmem | hmem
      · exact hpool.got node' r hmem
      · cases List.mem_singleton.mp hmem
        exact ⟨addr, opened, haddr, by rw [hobj]; exact hopened, hkeyed⟩
    exact (hnoted.conn_sent hconn).of_fields rfl rfl rfl rfl rfl

theorem Pooled.runSends (h : Pooled addrs s) {calls : List RdsSend}
    (hrun : s.runSends calls = some s') : Pooled addrs s' := by
  induction calls generalizing s with
  | nil =>
    cases hrun
    exact h
  | cons call calls ih =>
    unfold RedisMgr.runSends at hrun
    split at hrun
    · cases hrun
    · next b s₁ hsent => exact ih (h.sent (sent_of_sendTo hsent)) hrun

theorem Pooled.invoke (h : Pooled addrs s) {task : RdsTask} {reactions : ℕ → List RdsSend}
    (hrun : s.invoke task reactions = some s') : Pooled addrs s' := by
  have hcalled : Pooled addrs { s with called := s.called ++ [task.id] } :=
    h.of_fields rfl rfl rfl rfl rfl
  exact hcalled.runSends hrun

/-! ## The walks over the waiting commands -/

theorem Pooled.walk (h : Pooled addrs s) {c : ℕ} {ok : Bool} {accepts : ℕ → Bool}
    {reactions : ℕ → List RdsSend} {tasks : List RdsTask}
    (hrun : walk c ok accepts reactions s tasks = some s') : Pooled addrs s' := by
  induction tasks generalizing s with
  | nil =>
    cases hrun
    exact h
  | cons task tasks ih =>
    have hpop : Pooled addrs (s.passed c task tasks) :=
      h.congr (sameAddrs_setObj s c (fun _ => rfl) fun _ _ hact => Or.inl hact)
    obtain ⟨s₁, ⟨-, hsent⟩ | hinvoke, hrest⟩ := walk_cons_cases hrun
    · exact ih (hpop.conn_sent hsent) hrest
    · exact ih (hpop.invoke hinvoke) hrest

/-- A callback of hiredis that reaches a connection which was opened before. -/
theorem Pooled.onConnectCallback (h : Pooled addrs s) {c : ℕ} {ok : Bool} {accepts : ℕ → Bool}
    {reactions : ℕ → List RdsSend}
    (hopened : ∀ obj, s.objs[c]? = some obj → obj.addr.isSome = true)
    (hrun : s.onConnectCallback c ok accepts reactions = some s') : Pooled addrs s' := by
  obtain ⟨obj, s₁, hobj, -, hwalk, rfl⟩ := onConnectCallback_cases hrun
  have hset : Pooled addrs (s.setObj c (.onConnect ok)) := by
    refine h.congr (sameAddrs_setObj s c ?_ ?_)
    · intro obj
      cases ok <;> rfl
    · intro obj hobj _
      exact Or.inr (hopened obj hobj)
  exact (hset.walk hwalk).congr
    (sameAddrs_setObj s₁ c (fun _ => rfl) fun _ _ hact => Or.inl hact)

/-- The connection of a context was opened. -/
theorem Pooled.data_addr (h : Pooled addrs s) {k : ℕ} {ctx : RedisCtx}
    (hctx : s.ctxs[k]? = some ctx) :
    ∀ obj, s.objs[ctx.data]? = some obj → obj.addr.isSome = true := by
  intro obj hobj
  obtain ⟨obj', hobj', hsome⟩ := h.data k ctx hctx
  rw [hobj] at hobj'
  obtain rfl := Option.some.inj hobj'
  exact hsome

theorem Pooled.setPhase (h : Pooled addrs s) (k : ℕ) (phase : CtxPhase) :
    Pooled addrs (s.setPhase k phase) :=
  h.congr (sameAddrs_setCtx s k fun _ => rfl)

theorem Pooled.disconnect (h : Pooled addrs s) {k : ℕ} {waited : List RdsTask}
    (hrun : s.disconnect k waited = some s') : Pooled addrs s' := by
  obtain ⟨ctx, hctx, ⟨-, rfl⟩ | ⟨-, -, -, hrun⟩ | ⟨-, -, rfl⟩⟩ := disconnect_cases hrun
  · exact h.setPhase k _
  · exact (h.setPhase k _).onConnectCallback (h.data_addr hctx) hrun
  · exact h.setPhase k _

theorem Pooled.destory (h : Pooled addrs s) {c : ℕ} {reactions : ℕ → List RdsSend}
    (hrun : s.destory c reactions = some s') : Pooled addrs s' := by
  obtain ⟨obj, s₁, -, -, hcase, rfl⟩ := destory_cases hrun
  have hpool : Pooled addrs s₁ := by
    rcases hcase with ⟨-, rfl⟩ | ⟨k, s₂, -, hwalk, hdisconnect⟩
    · exact h
    · have hset : Pooled addrs (s.setObj c fun obj => { obj with walking := true }) :=
        h.congr (sameAddrs_setObj s c (fun _ => rfl) fun _ _ hact => Or.inl hact)
      exact (hset.walk hwalk).disconnect hdisconnect
  exact hpool.congr (sameAddrs_setObj s₁ c (fun _ => rfl) fun _ _ hact => by cases hact)

theorem Pooled.deleteAll (h : Pooled addrs s) {reactions : ℕ → List RdsSend}
    {entries : List (Bytes × ℕ)} (hrun : deleteAll reactions s entries = some s') :
    Pooled addrs s' := by
  induction entries generalizing s with
  | nil =>
    cases hrun
    exact h
  | cons entry entries ih =>
    unfold RedisMgr.deleteAll at hrun
    split at hrun
    · cases hrun
    · next s₁ hdestory => exact ih (h.destory hdestory) hrun

/-! ## Runs -/

theorem Pooled.step (h : Pooled addrs s) {e : RedisEvent} (hrun : s.step e = some s') :
    Pooled addrs s' := by
  cases e with
  | send call =>
    obtain ⟨⟨b, s₁⟩, hsent, rfl⟩ := Option.map_eq_some_iff.mp hrun
    exact h.sent (sent_of_sendTo hsent)
  | connected k ok accepts reactions =>
    change s.onConnected k ok accepts reactions = some s' at hrun
    unfold onConnected at hrun
    cases hctx : s.ctxs[k]? with
    | none =>
      simp only [hctx] at hrun
      cases hrun
      exact h
    | some ctx =>
      simp only [hctx] at hrun
      split_ifs at hrun
      · exact (h.setPhase k _).onConnectCallback (h.data_addr hctx) hrun
      · exact (h.setPhase k _).onConnectCallback (h.data_addr hctx) hrun
      · cases hrun
        exact h
  | reply k reactions =>
    change s.onReply k reactions = some s' at hrun
    unfold onReply at hrun
    cases hctx : s.ctxs[k]? with
    | none =>
      simp only [hctx] at hrun
      cases hrun
      exact h
    | some ctx =>
      simp only [hctx] at hrun
      split at hrun
      · cases hrun
        exact h
      · next task tasks hpending =>
        have hset : Pooled addrs (s.setCtx k fun ctx => { ctx with pending := tasks }) :=
          h.congr (sameAddrs_setCtx s k fun _ => rfl)
        exact hset.invoke hrun
  | disconnected k reactions =>
    change s.onDisconnected k reactions = some s' at hrun
    unfold onDisconnected at hrun
    cases hctx : s.ctxs[k]? with
    | none =>
      simp only [hctx] at hrun
      cases hrun
      exact h
    | some ctx =>
      simp only [hctx] at hrun
      split_ifs at hrun
      · cases hrun
        exact h
      · split at hrun
        · exact (h.setPhase k _).onConnectCallback (h.data_addr hctx) hrun
        · exact (h.setPhase k _).onConnectCallback (h.data_addr hctx) hrun
        all_goals
          cases hrun
          exact h
  | destroy entries reactions =>
    change s.delete entries reactions = some s' at hrun
    unfold delete at hrun
    split_ifs at hrun
    · -- the addresses are forgotten in front of the connections
      obtain ⟨s₁, hdel, rfl⟩ := Option.map_eq_some_iff.mp hrun
      have hforgot : Pooled addrs { s with addrs := ∅ } :=
        ⟨fun node addr ha => by simp at ha, h.conns, h.inj, h.active, h.data, h.got⟩
      have hpool := hforgot.deleteAll hdel
      exact ⟨hpool.known, fun key c hc => by simp at hc, fun key key' c hc => by simp at hc,
        hpool.active, hpool.data, hpool.got⟩
    · cases hrun
      exact h

theorem Pooled.run {es : List RedisEvent} (h : Pooled addrs s)
    (hrun : redisMachine.run (some s) es = some s') : Pooled addrs s' := by
  refine redisMachine.run_invariant (P := fun w => ∀ s, w = some s → Pooled addrs s) ?_ ?_ es s' hrun
  · intro w e hw s₂ hs₂
    obtain ⟨s₁, rfl, hstep⟩ := Option.bind_eq_some_iff.mp hs₂
    exact (hw s₁ rfl).step hstep
  · intro s₁ hs₁
    cases hs₁
    exact h

/-! ## Separate keys -/

theorem Pooled.routed (h : Pooled addrs s) (hkeys : AddrsSeparate addrs) : Routed addrs s := by
  intro node r hr
  obtain ⟨addr, opened, haddr, rfl, ⟨other, hother⟩, hvalid, hkey⟩ := h.got node r hr
  exact ⟨addr, haddr, congrArg some (hkeys other node opened addr hother haddr hvalid hkey)⟩

theorem Pooled.unshared (h : Pooled addrs s) (hkeys : AddrsSeparate addrs) :
    Unshared addrs s := by
  intro node node' addr addr' c c' haddr haddr' hdiffer hconn hconn' hsame
  obtain rfl := hsame
  have hkey := h.inj _ _ c hconn hconn'
  obtain ⟨obj, opened, -, -, ⟨other, hother⟩, hvalid, hopened⟩ := h.conns _ c hconn
  -- The connection was opened to one address, and both nodes have it.
  have h₁ := hkeys other node opened addr hother haddr hvalid hopened
  have h₂ := hkeys other node' opened addr' hother haddr' hvalid (hopened.trans hkey)
  exact hdiffer (h₁.symm.trans h₂)

/-- One command for a node opens a connection with its key. -/
theorem opened_of_send {node : Bytes} {addr : Bytes × ℤ} (haddr : addrs.lookup node = some addr)
    (hvalid : Openable addr) :
    ∃ es s c, redisMachine.run (some { addrs := addrs }) es = some s ∧
      s.conns.lookup (formatAddr addr.1 addr.2) = some c := by
  obtain ⟨host, port⟩ := addr
  have hfresh : (∅ : FiniteMap Bytes ℕ).lookup (formatAddr host port) = none := by simp
  have hinvalid : ¬ (host = [] ∨ port = 0) := not_or.mpr hvalid
  have hget : getConn { addrs := addrs, nextSend := 1 } node .ok =
      some (some 0, { opened { addrs := addrs, objs := [{}], nextSend := 1 } 0 host port with
        conns := (∅ : FiniteMap Bytes ℕ).insert (formatAddr host port) 0 }) := by
    simp only [getConn, haddr, hfresh, openConn, connect, if_neg hinvalid]
    rfl
  refine ⟨[.send { node := some node, argv := [[]], fn := some 0 }], ?_⟩
  simp only [Machine.run_cons, Machine.run_nil, redisMachine, Option.bind_some, step, sendTo,
    hget]
  exact ⟨_, 0, rfl, (FiniteMap.lookup_insert ..).trans (if_pos rfl)⟩

end RedisMgr

/-- **Routing**: in all runs the connections go to the addresses they are asked for, and nodes
with different addresses have no connection in common, exactly when the keys of the addresses
are separate. -/
theorem redis_routed_iff (addrs : FiniteMap Bytes (Bytes × ℤ)) :
    AddrsSeparate addrs ↔ ∀ es s, redisMachine.run (some { addrs := addrs }) es = some s →
      RedisMgr.Routed addrs s ∧ RedisMgr.Unshared addrs s := by
  constructor
  · intro hkeys es s hrun
    have hstart : RedisMgr.Pooled addrs { addrs := addrs } := by
      refine ⟨fun _ _ h => h, ?_, ?_, ?_, ?_, ?_⟩ <;> intros <;> simp_all
    have h := hstart.run hrun
    exact ⟨h.routed hkeys, h.unshared hkeys⟩
  · intro h node node' addr addr' haddr haddr' hvalid hkey
    by_contra hdiffer
    obtain ⟨es, s, c, hrun, hconn⟩ := RedisMgr.opened_of_send haddr hvalid
    have hunshared := (h es s hrun).2 node node' addr addr' c c haddr haddr' hdiffer hconn
    exact hunshared (hkey ▸ hconn) rfl

/-! ## Both managers -/

/-- **Routing**: the connections of both managers go where they are asked for in all runs, and
what differs has no connection in common, exactly when the keys are separate. -/
theorem pools_routed_iff (dbs : FiniteMap Bytes DbInfo) (addrs : FiniteMap Bytes (Bytes × ℤ)) :
    KeysSeparate dbs ∧ AddrsSeparate addrs ↔
      (∀ es s, dbMachine.run (some { dbs := dbs }) es = some s →
        DbMgr.Routed dbs s ∧ DbMgr.Unshared dbs s) ∧
      ∀ es s, redisMachine.run (some { addrs := addrs }) es = some s →
        RedisMgr.Routed addrs s ∧ RedisMgr.Unshared addrs s :=
  and_congr (routed_iff dbs) (redis_routed_iff addrs)

/-- A database of one server, for a user. -/
def sharedDb (user : String) : DbInfo where
  port := 3306
  maxConnCnt := 1
  host := text "127.0.0.1"
  dbName := text "test"
  password := text "secret"
  charset := text "utf8"
  user := text user

/-- Two nodes on one server, with different users. -/
def sharedDbs : FiniteMap Bytes DbInfo :=
  ((∅ : FiniteMap Bytes DbInfo).insert (text "a") (sharedDb "alice")).insert (text "b")
    (sharedDb "bob")

/-- Two nodes whose hosts differ in the last of 64 characters. -/
def sharedAddrs : FiniteMap Bytes (Bytes × ℤ) :=
  ((∅ : FiniteMap Bytes (Bytes × ℤ)).insert (text "a") (List.replicate 63 97 ++ [97], 6379)).insert
    (text "b") (List.replicate 63 97 ++ [98], 6379)

/-- A call for the second node gets the connection of the first one. -/
theorem pools_share :
    (∃ s, dbMachine.run (some { dbs := sharedDbs })
        [.sql { isQuery := false, node := some (text "a"), fn := some 0, sql := some []
                opening := { front := (sharedDb "alice").identity } },
          .sql { isQuery := false, node := some (text "b"), fn := some 0, sql := some [] }] =
        some s ∧ ¬ DbMgr.Routed sharedDbs s) ∧
      ∃ s, redisMachine.run (some { addrs := sharedAddrs })
        [.send { node := some (text "a"), argv := [text "ping"], fn := some 0 },
          .send { node := some (text "b"), argv := [text "ping"], fn := some 0 }] = some s ∧
        ¬ RedisMgr.Routed sharedAddrs s := by
  constructor
  · have hgot : ((dbMachine.run (some { dbs := sharedDbs })
        [.sql { isQuery := false, node := some (text "a"), fn := some 0, sql := some []
                opening := { front := (sharedDb "alice").identity } },
          .sql { isQuery := false, node := some (text "b"), fn := some 0, sql := some [] }]).map
        DbMgr.got) = some [(text "a", some (sharedDb "alice")),
          (text "b", some (sharedDb "alice"))] := by decide +kernel
    obtain ⟨s, hs, hs'⟩ := Option.map_eq_some_iff.mp hgot
    refine ⟨s, hs, fun hrouted => ?_⟩
    obtain ⟨info, conn, hdb, heq, hsame⟩ := hrouted (text "b") (some (sharedDb "alice")) (by
      rw [hs']
      exact List.mem_cons_of_mem _ List.mem_cons_self)
    obtain rfl : sharedDb "bob" = info := by
      rw [sharedDbs, FiniteMap.lookup_insert, if_pos rfl] at hdb
      exact Option.some.inj hdb
    obtain rfl := Option.some.inj heq
    exact absurd hsame.2.2.2 (by decide)
  · have hgot : ((redisMachine.run (some { addrs := sharedAddrs })
        [.send { node := some (text "a"), argv := [text "ping"], fn := some 0 },
          .send { node := some (text "b"), argv := [text "ping"], fn := some 0 }]).map
        RedisMgr.got) = some [(text "a", some (List.replicate 63 97 ++ [97], 6379)),
          (text "b", some (List.replicate 63 97 ++ [97], 6379))] := by decide +kernel
    obtain ⟨s, hs, hs'⟩ := Option.map_eq_some_iff.mp hgot
    refine ⟨s, hs, fun hrouted => ?_⟩
    obtain ⟨addr, haddr, heq⟩ := hrouted (text "b") _ (by
      rw [hs']
      exact List.mem_cons_of_mem _ List.mem_cons_self)
    rw [sharedAddrs, FiniteMap.lookup_insert, if_pos rfl] at haddr
    obtain rfl := Option.some.inj haddr
    exact absurd heq (by decide)

end Kimserver
