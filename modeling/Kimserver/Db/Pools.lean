import Kimserver.Db.DbMgr

/-!
# The connections of a pool

A pool is found under the key of a database, and every connection in it was opened for some
configured database with this key. The key leaves out the user, and is cut to 63 characters,
so that two databases may have one key. Where no two databases do that differ in their host,
port, name or user, every connection goes to the server it is asked for.

## Main definitions

* `DbInfo.SameServer`: two databases that differ in no member that a connection is opened with
* `KeysSeparate`: databases with one key are the same
* `DbMgr.Pooled`: the invariant, which needs no condition on the keys

## Main results

* `DbMgr.Pooled.step`: every event keeps the invariant
* `routed_iff`: when the connections go to their servers in all runs
-/

namespace Kimserver

/-- The same host, port, name and user. -/
def DbInfo.SameServer (info info' : DbInfo) : Prop :=
  info.host = info'.host ∧ info.port = info'.port ∧ info.dbName = info'.dbName ∧
    info.user = info'.user

/-- Configured databases with the same key are the same. -/
def KeysSeparate (dbs : FiniteMap Bytes DbInfo) : Prop :=
  ∀ node node' info info', dbs.lookup node = some info → dbs.lookup node' = some info' →
    info.identity = info'.identity → info.SameServer info'

namespace DbMgr

variable {dbs : FiniteMap Bytes DbInfo}

/-- What a connection that was returned for a node was opened with. -/
def Routed (dbs : FiniteMap Bytes DbInfo) (s : DbMgr) : Prop :=
  ∀ node r, (node, r) ∈ s.got →
    ∃ info conn, dbs.lookup node = some info ∧ r = some conn ∧ conn.SameServer info

/-- Databases that differ have no pool in common. -/
def Unshared (dbs : FiniteMap Bytes DbInfo) (s : DbMgr) : Prop :=
  ∀ node node' info info' pair pair', dbs.lookup node = some info →
    dbs.lookup node' = some info' → ¬ info.SameServer info' →
    s.conns.lookup info.identity = some pair → s.conns.lookup info'.identity = some pair' →
    pair.list.Disjoint pair'.list

/-- This database has the key, and is configured. -/
def Keyed (dbs : FiniteMap Bytes DbInfo) (key : Bytes) (info : DbInfo) : Prop :=
  (∃ node, dbs.lookup node = some info) ∧ info.identity = key

/-- Every connection of a pool was opened for a database with the key of the pool. -/
structure Pooled (dbs : FiniteMap Bytes DbInfo) (s : DbMgr) : Prop where
  known : ∀ node info, s.dbs.lookup node = some info → dbs.lookup node = some info
  pools : ∀ key pair, s.conns.lookup key = some pair → ∀ c ∈ pair.list,
    ∃ obj, s.objs[c]? = some obj ∧ Keyed dbs key obj.dbInfo
  got : ∀ node r, (node, r) ∈ s.got → ∃ info conn,
    dbs.lookup node = some info ∧ r = some conn ∧ Keyed dbs info.identity conn

/-- The connections of `s` are those of `s'` with the same number, for the same database. -/
def SameInfo (s s' : DbMgr) : Prop :=
  ∀ (i : ℕ) (obj : MysqlAsyncConn), s.objs[i]? = some obj →
    ∃ obj', s'.objs[i]? = some obj' ∧ obj'.dbInfo = obj.dbInfo

variable {s s' : DbMgr}

theorem Keeps.sameInfo (h : Keeps s s') : SameInfo s s' := by
  intro i obj hobj
  obtain ⟨tasks, hobj'⟩ := h i obj hobj
  exact ⟨_, hobj', (MysqlAsyncConn.called_addTasks obj tasks).dbInfo⟩

theorem Pooled.congr (h : Pooled dbs s) (hinfo : SameInfo s s') (hdbs : s'.dbs = s.dbs)
    (hconns : s'.conns = s.conns) (hgot : s'.got = s.got) : Pooled dbs s' where
  known := hdbs ▸ h.known
  pools key pair hpair c hc := by
    obtain ⟨obj, hobj, hkeyed⟩ := h.pools key pair (hconns ▸ hpair) c hc
    obtain ⟨obj', hobj', heq⟩ := hinfo c obj hobj
    exact ⟨obj', hobj', heq ▸ hkeyed⟩
  got := hgot ▸ h.got

/-- A connection that was just made belongs to the pool of its database. -/
theorem Pooled.asyncConnect (h : Pooled dbs s) {node : Bytes} {info : DbInfo} {o : Opening}
    (hdb : s.dbs.lookup node = some info) :
    ∃ obj, (s.asyncConnect info o).objs[s.objs.length]? = some obj ∧ obj.dbInfo = info ∧
      Keyed dbs info.identity info := by
  refine ⟨MysqlAsyncConn.init info { realConnectStart := o.connect }, ?_, ?_, ?_⟩
  · simp only [DbMgr.asyncConnect, List.getElem?_concat_length]
  · exact MysqlAsyncConn.dbInfo_init _ _
  · exact ⟨⟨node, h.known node info hdb⟩, rfl⟩

/-- A pool of a key may get another connection of this key. -/
theorem Pooled.insert {pair : MysqlConnPair} (h : Pooled dbs s)
    (hinfo : SameInfo s s') (hdbs : s'.dbs = s.dbs) (hgot : s'.got = s.got) {key : Bytes}
    (hconns : s'.conns = s.conns.insert key pair)
    (hpair : ∀ c ∈ pair.list, ∃ obj, s'.objs[c]? = some obj ∧ Keyed dbs key obj.dbInfo) :
    Pooled dbs s' where
  known := hdbs ▸ h.known
  pools key' pair' hpair' c hc := by
    rw [hconns, FiniteMap.lookup_insert] at hpair'
    split_ifs at hpair' with hkey
    · obtain rfl := Option.some.inj hpair'
      rw [hkey]
      exact hpair c hc
    · obtain ⟨obj, hobj, hkeyed⟩ := h.pools key' pair' hpair' c hc
      obtain ⟨obj', hobj', heq⟩ := hinfo c obj hobj
      exact ⟨obj', hobj', heq ▸ hkeyed⟩
  got := hgot ▸ h.got

theorem Pooled.openPool (h : Pooled dbs s) {node : Bytes} {info : DbInfo} {o : Opening}
    (hdb : s.dbs.lookup node = some info) : Pooled dbs (s.openPool info o) := by
  obtain ⟨obj, hobj, hobjInfo, hkeyed⟩ := h.asyncConnect (o := o) hdb
  have hnew : SameInfo s (s.asyncConnect info o) := (keeps_of_append rfl).sameInfo
  have hinsert : Pooled dbs { s.asyncConnect info o with
      conns := s.conns.insert info.identity { iter := none, list := [s.objs.length] } } := by
    refine h.insert hnew rfl rfl rfl fun c hc => ?_
    rw [List.mem_singleton.mp hc]
    exact ⟨obj, hobj, hobjInfo ▸ hkeyed⟩
  unfold DbMgr.openPool
  simp only
  cases hfront : (s.conns.insert info.identity { iter := none, list := [s.objs.length] }).lookup
    o.front with
  | none => exact hinsert
  | some pair =>
    -- Only the iterator of the entry at the front changes.
    refine hinsert.insert (fun i obj hi => ⟨obj, hi, rfl⟩) rfl rfl rfl fun c hc => ?_
    exact hinsert.pools o.front pair hfront c hc

theorem Pooled.growPool (h : Pooled dbs s) {node : Bytes} {info : DbInfo} {o : Opening}
    {pair : MysqlConnPair} (hdb : s.dbs.lookup node = some info)
    (hpool : s.conns.lookup info.identity = some pair) : Pooled dbs (s.growPool info pair o) := by
  obtain ⟨obj, hobj, hobjInfo, hkeyed⟩ := h.asyncConnect (o := o) hdb
  have hnew : SameInfo s (s.asyncConnect info o) := (keeps_of_append rfl).sameInfo
  refine h.insert hnew rfl rfl rfl fun c hc => ?_
  rcases List.mem_append.mp hc with hc | hc
  · obtain ⟨obj', hobj', hkeyed'⟩ := h.pools info.identity pair hpool c hc
    obtain ⟨obj'', hobj'', heq⟩ := hnew c obj' hobj'
    exact ⟨obj'', hobj'', heq ▸ hkeyed'⟩
  · rw [List.mem_singleton.mp hc]
    exact ⟨obj, hobj, hobjInfo ▸ hkeyed⟩

/-- `get_conn` keeps the pools, and returns a connection with the key of the node. -/
theorem Pooled.got_conn (h : Pooled dbs s) {node : Bytes} {o : Opening} {r : Option ℕ}
    (hgot : Got s node o r s') :
    Pooled dbs s' ∧ s'.got = s.got ∧ ∀ c, r = some c → ∃ info obj,
      dbs.lookup node = some info ∧ s'.objs[c]? = some obj ∧
        Keyed dbs info.identity obj.dbInfo := by
  cases hgot with
  | unknown hdb => exact ⟨h, rfl, fun c hc => by cases hc⟩
  | opens info hdb hpool =>
    obtain ⟨obj, hobj, hobjInfo, hkeyed⟩ := h.asyncConnect (o := o) hdb
    refine ⟨h.openPool hdb, rfl, fun c hc => ?_⟩
    obtain rfl := Option.some.inj hc
    exact ⟨info, obj, h.known _ _ hdb, hobj, hobjInfo ▸ hkeyed⟩
  | grows info pair hdb hpool =>
    obtain ⟨obj, hobj, hobjInfo, hkeyed⟩ := h.asyncConnect (o := o) hdb
    refine ⟨h.growPool hdb hpool, rfl, fun c hc => ?_⟩
    obtain rfl := Option.some.inj hc
    exact ⟨info, obj, h.known _ _ hdb, hobj, hobjInfo ▸ hkeyed⟩
  | walks info pair i c' hdb hpool hiter hc' =>
    obtain ⟨obj, hobj, hkeyed⟩ := h.pools info.identity pair hpool c' (List.mem_of_getElem? hc')
    refine ⟨?_, rfl, fun c hc => ?_⟩
    · exact h.insert (fun i obj hi => ⟨obj, hi, rfl⟩) rfl rfl rfl fun c hc =>
        h.pools info.identity pair hpool c hc
    · split_ifs at hc
      obtain rfl := Option.some.inj hc
      exact ⟨info, obj, h.known _ _ hdb, hobj, hkeyed⟩

theorem Pooled.handled (h : Pooled dbs s) {call : SqlCall} {b : Bool}
    (hsql : Handled s call b s') : Pooled dbs s' := by
  cases hsql with
  | invalid => exact h
  | refused node s' hgot => exact (h.got_conn hgot).1
  | accepted node fn sql c s₁ hgot =>
    obtain ⟨hpooled, hsame, hconn⟩ := h.got_conn hgot
    obtain ⟨info, obj, hdb, hobj, hkeyed⟩ := hconn c rfl
    have hinfo : SameInfo s₁ { s₁ with
        objs := s₁.objs.modify c fun obj => (obj.addTask (some (s₁.newTask call fn sql))).2 } :=
      (keeps_addTask c _ rfl).sameInfo
    refine ⟨hpooled.known, (hpooled.congr hinfo rfl rfl rfl).pools, fun node' r hr => ?_⟩
    rcases List.mem_append.mp hr with hr | hr
    · exact hpooled.got node' r hr
    · obtain ⟨rfl, rfl⟩ := Prod.mk.inj (List.mem_singleton.mp hr)
      exact ⟨info, obj.dbInfo, hdb, by rw [hobj]; rfl, hkeyed⟩

theorem Pooled.runCalls (h : Pooled dbs s) {calls : List SqlCall}
    (hrun : DbMgr.runCalls s calls = some s') : Pooled dbs s' := by
  induction calls generalizing s with
  | nil =>
    cases hrun
    exact h
  | cons call calls ih =>
    unfold DbMgr.runCalls at hrun
    cases hsql : s.handleSql call with
    | none =>
      rw [hsql] at hrun
      cases hrun
    | some p =>
      rw [hsql] at hrun
      exact ih (h.handled (handled_of_handleSql hsql)) hrun

/-! ## Events of a connection -/

/-- The pools are in order, and the connection `i` is for this database, unless the run has lost
its meaning. -/
def PooledWorld (dbs : FiniteMap Bytes DbInfo) (i : ℕ) (info : DbInfo) (w : Option DbMgr) : Prop :=
  ∀ s, w = some s → Pooled dbs s ∧ ∃ obj, s.objs[i]? = some obj ∧ obj.dbInfo = info

/-- Storing a connection for the same database. -/
theorem sameInfo_set {i : ℕ} {obj c : MysqlAsyncConn} (hobj : s.objs[i]? = some obj)
    (hinfo : c.dbInfo = obj.dbInfo) (h : s'.objs = s.objs.set i c) : SameInfo s s' := by
  intro j obj' hj
  rw [h, List.getElem?_set]
  by_cases hij : i = j
  · obtain rfl := hij
    rw [hobj] at hj
    obtain rfl := Option.some.inj hj
    have hlt : i < s.objs.length := (List.getElem?_eq_some_iff.mp hobj).1
    exact ⟨c, by rw [if_pos rfl, if_pos hlt], hinfo⟩
  · exact ⟨obj', by rw [if_neg hij, hj], rfl⟩

theorem pooledWorld_runCallback {i : ℕ} {info : DbInfo} (reactions : ℕ → List SqlCall)
    (task : SqlTask) (w : Option DbMgr) (c : MysqlAsyncConn) (hc : c.dbInfo = info)
    (hw : PooledWorld dbs i info w) :
    PooledWorld dbs i info (runCallback i reactions task w c).1 := by
  cases w with
  | none => exact hw
  | some s =>
    obtain ⟨hpooled, obj, hobj, hinfo⟩ := hw s rfl
    have hlt : i < s.objs.length := (List.getElem?_eq_some_iff.mp hobj).1
    have hset : SameInfo s { s with objs := s.objs.set i c, called := s.called ++ [task.id] } :=
      sameInfo_set hobj (hc.trans hinfo.symm) rfl
    intro s' hs'
    unfold runCallback at hs'
    simp only [if_pos hlt] at hs'
    cases hrun : DbMgr.runCalls { s with objs := s.objs.set i c, called := s.called ++ [task.id] }
      (reactions task.id) with
    | none =>
      rw [hrun] at hs'
      cases hs'
    | some s₁ =>
      rw [hrun] at hs'
      cases hs'
      obtain ⟨obj', hobj', hinfo'⟩ := hset i obj hobj
      obtain ⟨obj'', hobj'', hinfo''⟩ := (keeps_runCalls hrun).sameInfo i obj' hobj'
      exact ⟨(hpooled.congr hset rfl rfl rfl).runCalls hrun, obj'', hobj'',
        hinfo''.trans (hinfo'.trans hinfo)⟩

/-- An event of a connection keeps the pools, if it keeps them up to the connection. -/
theorem Pooled.onConn (h : Pooled dbs s) {i : ℕ}
    {f : Option DbMgr → MysqlAsyncConn → Option DbMgr × MysqlAsyncConn}
    (hworld : ∀ obj, PooledWorld dbs i obj.dbInfo (some s) →
      PooledWorld dbs i obj.dbInfo (f (some s) obj).1)
    (hinfo : ∀ obj, (f (some s) obj).2.dbInfo = obj.dbInfo)
    (hs' : DbMgr.onConn i f s = some s') : Pooled dbs s' := by
  unfold DbMgr.onConn at hs'
  cases hobj : s.objs[i]? with
  | none =>
    rw [hobj] at hs'
    cases hs'
    exact h
  | some obj =>
    simp only [hobj] at hs'
    have hstart : PooledWorld dbs i obj.dbInfo (some s) := fun s₁ hs₁ => by
      cases hs₁
      exact ⟨h, obj, hobj, rfl⟩
    have hend := hworld obj hstart
    have hc := hinfo obj
    generalize f (some s) obj = p at hend hc hs'
    obtain ⟨_ | s₁, c⟩ := p
    · cases hs'
    · cases hs'
      obtain ⟨hpooled, obj', hobj', hinfo'⟩ := hend s₁ rfl
      exact hpooled.congr (sameInfo_set hobj' (hc.trans hinfo'.symm) rfl) rfl rfl rfl

theorem Pooled.deleteConns {reactions : ℕ → List SqlCall} (h : Pooled dbs s) {is : List ℕ}
    (hs' : DbMgr.deleteConns reactions s is = some s') : Pooled dbs s' := by
  induction is generalizing s with
  | nil =>
    cases hs'
    exact h
  | cons i is ih =>
    unfold DbMgr.deleteConns at hs'
    cases hconn : DbMgr.onConn i (fun w c => c.clearTasks (host i {} reactions) w) s with
    | none =>
      rw [hconn] at hs'
      cases hs'
    | some s₁ =>
      rw [hconn] at hs'
      refine ih (h.onConn (fun obj hw => ?_) (fun obj => ?_) hconn) hs'
      · exact MysqlAsyncConn.world_clearTasks (pooledWorld_runCallback reactions) rfl hw
      · exact MysqlAsyncConn.dbInfo_clearTasks

/-- **Every event keeps the pools.** -/
theorem Pooled.step (h : Pooled dbs s) {e : DbEvent} (hs' : s.step e = some s') :
    Pooled dbs s' := by
  cases e with
  | sql call =>
    obtain ⟨⟨b, s₁⟩, hsql, rfl⟩ := Option.map_eq_some_iff.mp hs'
    exact h.handled (handled_of_handleSql hsql)
  | io i replies reactions =>
    simp only [DbMgr.step] at hs'
    refine h.onConn (fun obj hw => ?_) ?_ hs'
    · simp only [connStep]
      split_ifs
      · exact MysqlAsyncConn.world_waitForMysql (pooledWorld_runCallback reactions) rfl hw
      · exact hw
    · exact fun obj => dbInfo_connStep _ _
  | timer i replies reactions =>
    simp only [DbMgr.step] at hs'
    refine h.onConn (fun obj hw => ?_) ?_ hs'
    · exact MysqlAsyncConn.world_pingStart (pooledWorld_runCallback reactions) rfl hw
    · exact fun obj => dbInfo_connStep _ _
  | destroy reactions =>
    simp only [DbMgr.step, DbMgr.destroy] at hs'
    cases hdel : DbMgr.deleteConns reactions { s with dbs := ∅ } (List.range s.objs.length) with
    | none =>
      rw [hdel] at hs'
      cases hs'
    | some s₁ =>
      rw [hdel] at hs'
      cases hs'
      have hempty : Pooled dbs { s with dbs := ∅ } :=
        ⟨fun node info hdb => by simp at hdb, h.pools, h.got⟩
      have hpooled := hempty.deleteConns hdel
      exact ⟨hpooled.known, fun key pair hpair => by simp at hpair, hpooled.got⟩

theorem pooled_run {es : List DbEvent} (h : dbMachine.run (some { dbs := dbs }) es = some s) :
    Pooled dbs s := by
  have hrun := dbMachine.run_invariant (P := fun w => ∀ s, w = some s → Pooled dbs s)
    (s := some { dbs := dbs }) ?_ ?_ es
  · exact hrun s h
  · intro w e hw s' hs'
    obtain ⟨s₁, rfl, hstep⟩ := Option.bind_eq_some_iff.mp hs'
    exact (hw s₁ rfl).step hstep
  · intro s' hs'
    cases hs'
    exact ⟨fun _ _ hdb => hdb, fun key pair hpair => by simp at hpair, fun _ _ hr => by simp at hr⟩

/-! ## Separate keys -/

theorem Pooled.routed (h : Pooled dbs s) (hkeys : KeysSeparate dbs) : Routed dbs s := by
  intro node r hr
  obtain ⟨info, conn, hdb, rfl, ⟨other, hother⟩, hkey⟩ := h.got node r hr
  exact ⟨info, conn, hdb, rfl, hkeys other node conn info hother hdb hkey⟩

theorem Pooled.unshared (h : Pooled dbs s) (hkeys : KeysSeparate dbs) : Unshared dbs s := by
  intro node node' info info' pair pair' hdb hdb' hdiffer hpair hpair' c hc hc'
  obtain ⟨obj, hobj, -, hkey⟩ := h.pools _ _ hpair c hc
  obtain ⟨obj', hobj', -, hkey'⟩ := h.pools _ _ hpair' c hc'
  -- A connection in both pools would have both keys.
  rw [hobj] at hobj'
  obtain rfl := Option.some.inj hobj'
  exact hdiffer (hkeys node node' info info' hdb hdb' (hkey.symm.trans hkey'))

/-- A new pool holds the new connection. -/
theorem lookup_openPool (s : DbMgr) (info : DbInfo) (o : Opening) :
    ∃ pair, (s.openPool info o).conns.lookup info.identity = some pair ∧
      s.objs.length ∈ pair.list := by
  unfold DbMgr.openPool
  simp only
  split
  · exact ⟨_, by rw [FiniteMap.lookup_insert, if_pos rfl], List.mem_singleton_self _⟩
  · next pair hfront =>
    rw [FiniteMap.lookup_insert] at hfront
    by_cases hkey : o.front = info.identity
    · rw [if_pos hkey] at hfront
      obtain rfl := Option.some.inj hfront
      exact ⟨_, by rw [FiniteMap.lookup_insert, if_pos hkey.symm], List.mem_singleton_self _⟩
    · refine ⟨{ iter := none, list := [s.objs.length] }, ?_, List.mem_singleton_self _⟩
      rw [FiniteMap.lookup_insert, if_neg (Ne.symm hkey), FiniteMap.lookup_insert, if_pos rfl]

/-- One call for a node opens the pool of its database. -/
theorem shared_of_call {node : Bytes} {info : DbInfo} (hdb : dbs.lookup node = some info) :
    ∃ es s pair, dbMachine.run (some { dbs := dbs }) es = some s ∧
      s.conns.lookup info.identity = some pair ∧ 0 ∈ pair.list := by
  obtain ⟨pair, hpair, hmem⟩ := lookup_openPool { dbs := dbs } info {}
  have hopen : (∅ : FiniteMap Bytes MysqlConnPair).lookup info.identity = none := by simp
  have hrun : ∃ s, dbMachine.run (some { dbs := dbs })
      [.sql { isQuery := false, node := some node, fn := some 0, sql := some [] }] = some s ∧
      s.conns = (openPool { dbs := dbs } info {}).conns := by
    simp only [Machine.run_cons, Machine.run_nil, dbMachine, Option.bind_some, DbMgr.step,
      DbMgr.handleSql, DbMgr.getConn, hdb, hopen, Bool.false_and, Bool.false_eq_true, if_false,
      Option.map_some]
    exact ⟨_, rfl, rfl⟩
  obtain ⟨s, hs, hconns⟩ := hrun
  exact ⟨_, s, pair, hs, hconns ▸ hpair, hmem⟩

end DbMgr

/-- **Routing**: in all runs the connections go to the servers they are asked for, and databases
that differ have no pool in common, exactly when the keys of the pools are separate. -/
theorem routed_iff (dbs : FiniteMap Bytes DbInfo) :
    KeysSeparate dbs ↔ ∀ es s, dbMachine.run (some { dbs := dbs }) es = some s →
      DbMgr.Routed dbs s ∧ DbMgr.Unshared dbs s := by
  constructor
  · intro hkeys es s hrun
    have h := DbMgr.pooled_run hrun
    exact ⟨h.routed hkeys, h.unshared hkeys⟩
  · intro h node node' info info' hdb hdb' hkey
    by_contra hdiffer
    obtain ⟨es, s, pair, hrun, hpair, hmem⟩ := DbMgr.shared_of_call hdb
    have hshared := (h es s hrun).2 node node' info info' pair pair hdb hdb' hdiffer hpair
      (hkey ▸ hpair)
    exact hshared hmem hmem

end Kimserver
