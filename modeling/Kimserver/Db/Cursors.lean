import Kimserver.Db.DbMgr
import Kimserver.Lib.RoundRobin

/-!
# The cursors of the pools

A pool is a list of connections with an iterator into it. `get_conn` makes a pool with an
iterator into a local list, and then sets the iterator of the entry at `m_conns.begin()`, which it
takes for the new one. In some orders of the map it is another one. The iterator of the new pool
then points into a list that is gone.

Where the new entry always comes first, every iterator stands in its own list, and the calls for a
full pool take turns with its connections.

## Main definitions

* `PoolEvent`, `poolMachine`: the calls of `get_conn`, between which the connections work
* `DbMgr.Cursors`: every pool is not empty, not too long, and its iterator stands in it
* `Fronted`: a pool that a call opens comes first in the map
* `visits`: the connections that the calls for a pool look at

## Main results

* `cursors_iff`: the runs in which every cursor is right in every state
-/

namespace Kimserver

/-- What happens to the pools: a call of `get_conn`, or work on the connections, which leaves
their number as it is. -/
inductive PoolEvent
  | getConn (node : Bytes) (o : Opening)
  | work (objs : List MysqlAsyncConn)

/-- The pools of a manager. A run that has no meaning goes on without a state. -/
def poolMachine : Machine (Option DbMgr) PoolEvent where
  step
    | none, _ => none
    | some s, .getConn node o => (s.getConn node o).map Prod.snd
    | some s, .work objs => some (if objs.length = s.objs.length then { s with objs } else s)

namespace DbMgr

/-- Every pool has a connection, no more of them than a database with its key allows, and its
iterator stands in its list. -/
def Cursors (s : DbMgr) : Prop :=
  ∀ key pair, s.conns.lookup key = some pair →
    pair.list ≠ [] ∧ (∃ i, pair.iter = some i ∧ i < pair.list.length) ∧
      ∃ node info, s.dbs.lookup node = some info ∧ info.identity = key ∧
        (pair.list.length : ℤ) ≤ max 1 info.maxConnCnt

/-- The connection that a call looks at, if it finds its pool full. -/
def considers (s : DbMgr) (node : Bytes) : Option ℕ := do
  let info ← s.dbs.lookup node
  let pair ← s.conns.lookup info.identity
  let i ← pair.iter
  if (pair.list.length : ℤ) < info.maxConnCnt then none else pair.list[pair.next i]?

/-- The key of the pool that a call is for. -/
def keyOf (s : DbMgr) : PoolEvent → Option Bytes
  | .getConn node _ => (s.dbs.lookup node).map DbInfo.identity
  | .work _ => none

variable {s : DbMgr} {node key : Bytes} {info : DbInfo} {pair : MysqlConnPair} {o : Opening}

theorem next_eq (pair : MysqlConnPair) (i : ℕ) :
    pair.next i = RoundRobin.next pair.list.length i := rfl

/-! ## The calls -/

theorem getConn_unknown (hdb : s.dbs.lookup node = none) : s.getConn node o = some (none, s) := by
  unfold getConn
  rw [hdb]

theorem getConn_opens (hdb : s.dbs.lookup node = some info)
    (hpool : s.conns.lookup info.identity = none) :
    s.getConn node o = some (some s.objs.length, s.openPool info o) := by
  unfold getConn
  simp only [hdb, hpool]

theorem getConn_grows (hdb : s.dbs.lookup node = some info)
    (hpool : s.conns.lookup info.identity = some pair)
    (hfull : (pair.list.length : ℤ) < info.maxConnCnt) :
    s.getConn node o = some (some s.objs.length, s.growPool info pair o) := by
  unfold getConn
  simp only [hdb, hpool, if_pos hfull]

/-- A call for a full pool moves its iterator on, and looks at the connection there. -/
theorem Cursors.getConn_walks (h : s.Cursors) (hdb : s.dbs.lookup node = some info)
    (hpool : s.conns.lookup info.identity = some pair)
    (hfull : ¬ (pair.list.length : ℤ) < info.maxConnCnt) :
    ∃ i c, pair.iter = some i ∧ i < pair.list.length ∧ pair.list[pair.next i]? = some c ∧
      s.considers node = some c ∧ s.getConn node o =
        some (if s.isConnected c then some c else none, { s with
          conns := s.conns.insert info.identity { pair with iter := some (pair.next i) } }) := by
  obtain ⟨-, ⟨i, hiter, hi⟩, -⟩ := h _ _ hpool
  have hget : pair.list[pair.next i]? = some _ := List.getElem?_eq_getElem (RoundRobin.next_lt hi)
  refine ⟨i, _, hiter, hi, hget, ?_, ?_⟩
  · simp only [considers, hdb, hpool, hiter, Option.bind_eq_bind, Option.bind_some, if_neg hfull,
      hget]
  · unfold getConn walkPool
    simp only [hdb, hpool, if_neg hfull, hiter, hget]
    rfl

/-- A pool that comes first in the map gets its own iterator. -/
theorem openPool_front (hfront : o.front = info.identity) :
    (s.openPool info o).conns =
      s.conns.insert info.identity { iter := some 0, list := [s.objs.length] } := by
  unfold openPool
  simp only [hfront, FiniteMap.lookup_insert, if_pos, FiniteMap.insert_insert]

/-- A pool that does not come first has an iterator into a list that is gone. -/
theorem openPool_behind (hfront : o.front ≠ info.identity) :
    (s.openPool info o).conns.lookup info.identity =
      some { iter := none, list := [s.objs.length] } := by
  unfold openPool
  simp only [FiniteMap.lookup_insert, if_neg hfront]
  cases s.conns.lookup o.front with
  | none => rw [FiniteMap.lookup_insert, if_pos rfl]
  | some front =>
    dsimp only
    rw [FiniteMap.lookup_insert, if_neg (Ne.symm hfront), FiniteMap.lookup_insert, if_pos rfl]

/-- The right cursors stay right where a pool is written with a right cursor. -/
theorem Cursors.insert (h : s.Cursors) {s' : DbMgr} (hdbs : s'.dbs = s.dbs)
    (hconns : s'.conns = s.conns.insert key pair) (hne : pair.list ≠ []) {i : ℕ}
    (hiter : pair.iter = some i) (hi : i < pair.list.length) (hdb : s.dbs.lookup node = some info)
    (hkey : info.identity = key) (hle : (pair.list.length : ℤ) ≤ max 1 info.maxConnCnt) :
    s'.Cursors := by
  intro key' pair' hpair'
  rw [hconns, FiniteMap.lookup_insert] at hpair'
  rw [hdbs]
  split_ifs at hpair' with heq
  · obtain rfl := Option.some.inj hpair'
    exact ⟨hne, ⟨i, hiter, hi⟩, node, info, hdb, heq ▸ hkey, hle⟩
  · exact h key' pair' hpair'

end DbMgr

/-! ## Runs -/

/-- A pool that the call opens comes first in the map. -/
def Fronted : Option DbMgr → PoolEvent → Prop
  | some s, .getConn node o => ∀ info, s.dbs.lookup node = some info →
      s.conns.lookup info.identity = none → o.front = info.identity
  | _, _ => True

/-- A state with right cursors and these databases. -/
def RightCursors (dbs : FiniteMap Bytes DbInfo) (s : Option DbMgr) : Prop :=
  ∃ m, s = some m ∧ m.Cursors ∧ m.dbs = dbs

variable {dbs : FiniteMap Bytes DbInfo} {s : DbMgr} {key : Bytes} {pair : MysqlConnPair}

theorem rightCursors_empty (dbs : FiniteMap Bytes DbInfo) :
    RightCursors dbs (some { dbs := dbs }) :=
  ⟨_, rfl, fun key pair hpair => by simp at hpair, rfl⟩

/-- The step lemma. -/
theorem RightCursors.step {s : Option DbMgr} (h : RightCursors dbs s) {e : PoolEvent}
    (he : Fronted s e) : RightCursors dbs (poolMachine.step s e) := by
  obtain ⟨m, rfl, hcur, hdbs⟩ := h
  cases e with
  | work objs =>
    simp only [poolMachine]
    split_ifs
    · exact ⟨_, rfl, hcur, hdbs⟩
    · exact ⟨_, rfl, hcur, hdbs⟩
  | getConn node o =>
    simp only [poolMachine]
    cases hdb : m.dbs.lookup node with
    | none =>
      rw [DbMgr.getConn_unknown hdb]
      exact ⟨m, rfl, hcur, hdbs⟩
    | some info =>
      cases hpool : m.conns.lookup info.identity with
      | none =>
        -- a new pool, with the cursor at its only connection
        rw [DbMgr.getConn_opens hdb hpool]
        have hconns := DbMgr.openPool_front (s := m) (he info hdb hpool)
        refine ⟨_, rfl, hcur.insert ?_ hconns ?_ rfl ?_ hdb rfl ?_, hdbs⟩
        · rfl
        · exact List.cons_ne_nil _ _
        · exact Nat.zero_lt_one
        · exact le_max_left _ _
      | some pair =>
        obtain ⟨hne, ⟨i, hiter, hi⟩, node', info', hdb', hkey', hle⟩ := hcur _ _ hpool
        by_cases hfull : (pair.list.length : ℤ) < info.maxConnCnt
        · -- a connection is added behind the others, and the cursor stays
          rw [DbMgr.getConn_grows hdb hpool hfull]
          refine ⟨_, rfl, hcur.insert rfl rfl ?_ hiter ?_ hdb rfl ?_, hdbs⟩
          · exact List.append_ne_nil_of_right_ne_nil _ (List.cons_ne_nil _ _)
          · rw [List.length_append]
            exact Nat.lt_add_right _ hi
          · rw [List.length_append, List.length_singleton]
            push_cast
            omega
        · -- the pool is full: the cursor moves on
          obtain ⟨i', c, hiter', hi', -, -, heq⟩ := hcur.getConn_walks (o := o) hdb hpool hfull
          rw [heq]
          exact ⟨_, rfl, hcur.insert rfl rfl hne rfl (RoundRobin.next_lt hi') hdb' hkey' hle, hdbs⟩

/-- A pool that is opened behind another entry has no cursor. -/
theorem RightCursors.fronted {s : Option DbMgr} (h : RightCursors dbs s) {e : PoolEvent}
    (hstep : ∃ m, poolMachine.step s e = some m ∧ m.Cursors) : Fronted s e := by
  obtain ⟨m, rfl, -, -⟩ := h
  cases e with
  | work objs => trivial
  | getConn node o =>
    intro info hdb hpool
    by_contra hfront
    obtain ⟨m', heq, hcur⟩ := hstep
    simp only [poolMachine, DbMgr.getConn_opens hdb hpool, Option.map_some] at heq
    obtain rfl := Option.some.inj heq
    obtain ⟨-, ⟨i, hiter, -⟩, -⟩ := hcur _ _ (DbMgr.openPool_behind hfront)
    cases hiter

/-! ## Turns -/

/-- The connection that an event looks at, if it is a call for the pool under this key and finds
it full. -/
def DbMgr.visit (s : DbMgr) (key : Bytes) : PoolEvent → List ℕ
  | .getConn node o =>
    if s.keyOf (.getConn node o) = some key then (s.considers node).toList else []
  | .work _ => []

/-- The connections that the calls of a run look at. -/
def visits (key : Bytes) : Option DbMgr → List PoolEvent → List ℕ
  | _, [] => []
  | none, _ => []
  | some s, e :: es => s.visit key e ++ visits key (poolMachine.step (some s) e) es

/-- How many calls of a run are for the pool under this key. -/
def callsFor (dbs : FiniteMap Bytes DbInfo) (key : Bytes) (es : List PoolEvent) : ℕ :=
  es.countP fun e => DbMgr.keyOf { dbs := dbs } e = some key

/-- The pool is full for every database with this key. -/
def FullFor (dbs : FiniteMap Bytes DbInfo) (key : Bytes) (n : ℕ) : Prop :=
  ∀ node info, dbs.lookup node = some info → info.identity = key → info.maxConnCnt ≤ n

/-- An event that is not for this pool leaves it alone. -/
theorem DbMgr.Cursors.other (hcur : s.Cursors) {e : PoolEvent} (he : Fronted (some s) e)
    (hkey : s.keyOf e ≠ some key) :
    ∃ s', poolMachine.step (some s) e = some s' ∧ s'.conns.lookup key = s.conns.lookup key := by
  cases e with
  | work objs =>
    simp only [poolMachine]
    split_ifs
    · exact ⟨_, rfl, rfl⟩
    · exact ⟨_, rfl, rfl⟩
  | getConn node o =>
    simp only [poolMachine]
    cases hdb : s.dbs.lookup node with
    | none =>
      rw [DbMgr.getConn_unknown hdb]
      exact ⟨s, rfl, rfl⟩
    | some info =>
      -- only the pool of the call is written
      have hne : key ≠ info.identity := by
        rintro rfl
        exact hkey (by rw [DbMgr.keyOf, hdb]; rfl)
      cases hpool : s.conns.lookup info.identity with
      | none =>
        rw [DbMgr.getConn_opens hdb hpool]
        refine ⟨_, rfl, ?_⟩
        rw [DbMgr.openPool_front (he info hdb hpool), FiniteMap.lookup_insert, if_neg hne]
      | some pair =>
        by_cases hfull : (pair.list.length : ℤ) < info.maxConnCnt
        · rw [DbMgr.getConn_grows hdb hpool hfull]
          refine ⟨_, rfl, ?_⟩
          exact (FiniteMap.lookup_insert ..).trans (if_neg hne)
        · obtain ⟨i, c, -, -, -, -, heq⟩ := hcur.getConn_walks (o := o) hdb hpool hfull
          rw [heq]
          refine ⟨_, rfl, ?_⟩
          exact (FiniteMap.lookup_insert ..).trans (if_neg hne)

/-- **The calls for a full pool take turns**, from its iterator on. -/
theorem visits_eq {i : ℕ} (hcur : s.Cursors) (hpool : s.conns.lookup key = some pair)
    (hiter : pair.iter = some i) (hfull : FullFor s.dbs key pair.list.length)
    {es : List PoolEvent} (hes : poolMachine.Meets Fronted (some s) es) :
    visits key (some s) es = RoundRobin.turns pair.list i (callsFor s.dbs key es) := by
  induction es generalizing s pair i with
  | nil => rfl
  | cons e es ih =>
    obtain ⟨he, hrest⟩ := hes
    obtain ⟨s', hs', hcur', hdbs'⟩ := RightCursors.step ⟨s, rfl, hcur, rfl⟩ he
    rw [hs'] at hrest
    by_cases hkey : s.keyOf e = some key
    · cases e with
      | work objs => cases hkey
      | getConn node o =>
        -- a call for this pool is one turn
        obtain ⟨info, hdb, rfl⟩ := Option.map_eq_some_iff.mp hkey
        have hnot : ¬ (pair.list.length : ℤ) < info.maxConnCnt :=
          not_lt.mpr (hfull node info hdb rfl)
        obtain ⟨i', c, hiter', -, hc, hconsiders, heq⟩ :=
          hcur.getConn_walks (o := o) hdb hpool hnot
        obtain rfl := Option.some.inj (hiter.symm.trans hiter')
        have hstep : poolMachine.step (some s) (.getConn node o) =
            some { s with conns := s.conns.insert info.identity
                            { pair with iter := some (pair.next i) } } := by
          simp only [poolMachine, heq, Option.map_some]
        obtain rfl := Option.some.inj (hs'.symm.trans hstep)
        have htail := ih hcur' ((FiniteMap.lookup_insert ..).trans (if_pos rfl)) rfl hfull hrest
        have hcount : callsFor s.dbs info.identity (.getConn node o :: es) =
            callsFor s.dbs info.identity es + 1 := by
          rw [callsFor, List.countP_cons_of_pos (by simpa [DbMgr.keyOf] using hkey)]
          rfl
        rw [hcount, RoundRobin.turns, visits, hs', htail, ← DbMgr.next_eq, hc, DbMgr.visit,
          if_pos hkey, hconsiders]
    · -- any other event is none
      obtain ⟨s'', hs'', hsame⟩ := hcur.other he hkey
      obtain rfl := Option.some.inj (hs'.symm.trans hs'')
      have htail := ih hcur' (hsame.trans hpool) hiter (by rw [hdbs']; exact hfull) hrest
      have hcount : callsFor s.dbs key (e :: es) = callsFor s.dbs key es := by
        refine List.countP_cons_of_neg ?_
        cases e with
        | work objs => simp [DbMgr.keyOf]
        | getConn node o => simpa [DbMgr.keyOf] using hkey
      have hnone : s.visit key e = [] := by
        cases e with
        | work objs => rfl
        | getConn node o => exact if_neg hkey
      rw [hcount, visits, hs', htail, hdbs', hnone, List.nil_append]

/-- **Cursors**: in the runs in which every new pool comes first in the map, and in no others, all
states have right cursors; and in these runs the calls for a full pool, as many as it has
connections, look at each of its connections once, whatever happens between them. -/
theorem cursors_iff (dbs : FiniteMap Bytes DbInfo) (es : List PoolEvent) :
    (poolMachine.Meets Fronted (some { dbs := dbs }) es ↔
      ∀ past, past <+: es → ∃ s, poolMachine.run (some { dbs := dbs }) past = some s ∧ s.Cursors) ∧
    (poolMachine.Meets Fronted (some { dbs := dbs }) es →
      ∀ past window, past ++ window = es →
        ∀ s key pair, poolMachine.run (some { dbs := dbs }) past = some s →
          s.conns.lookup key = some pair → FullFor dbs key pair.list.length →
          callsFor dbs key window = pair.list.length →
          (visits key (some s) window).Perm pair.list) := by
  constructor
  · exact Machine.Meets.iff_forall_prefix (P := fun s => ∃ m, s = some m ∧ m.Cursors)
      (I := RightCursors dbs) (Q := fun _ => True) (fun _ ⟨m, hm, hcur, _⟩ => ⟨m, hm, hcur⟩)
      (fun _ _ _ h he => h.step he) (fun _ _ _ h hstep => h.fronted hstep)
      (rightCursors_empty dbs) fun _ _ => trivial
  · rintro hmeets past window rfl s key pair hs hpool hfull hcount
    obtain ⟨hpast, hwindow⟩ := Machine.Meets.append.mp hmeets
    obtain ⟨s', hs', hcur, rfl⟩ :=
      hpast.invariant (P := RightCursors dbs) (fun _ _ h he => h.step he) (rightCursors_empty dbs)
    obtain rfl := Option.some.inj (hs.symm.trans hs')
    rw [hs] at hwindow
    obtain ⟨-, ⟨i, hiter, hi⟩, -⟩ := hcur key pair hpool
    rw [visits_eq hcur hpool hiter hfull hwindow, hcount]
    exact RoundRobin.perm_turns hi

/-! ## Three databases -/

/-- A database with room for one connection. -/
def cursorDb (dbName : Bytes) : DbInfo where
  port := 3306
  maxConnCnt := 1
  host := text "127.0.0.1"
  dbName := dbName
  password := text "1"
  charset := text "utf8"
  user := text "root"

/-- The databases `a`, `b` and `c` of a server. -/
def cursorDbs : FiniteMap Bytes DbInfo :=
  (((∅ : FiniteMap Bytes DbInfo).insert (text "a") (cursorDb (text "a"))).insert (text "b")
    (cursorDb (text "b"))).insert (text "c") (cursorDb (text "c"))

/-- A call that opens a pool at the front of the map, and one that finds it full. -/
theorem cursors_oneDb :
    (∀ past, past <+: [PoolEvent.getConn (text "a") { front := (cursorDb (text "a")).identity },
        .getConn (text "a") {}] →
      ∃ s, poolMachine.run (some { dbs := cursorDbs }) past = some s ∧ s.Cursors) ∧
    ∃ s, poolMachine.run (some { dbs := cursorDbs })
        [.getConn (text "a") { front := (cursorDb (text "a")).identity }] = some s ∧
      (visits (cursorDb (text "a")).identity (some s) [.getConn (text "a") {}]).Perm [0] := by
  obtain ⟨hiff, hturns⟩ := cursors_iff cursorDbs
    [.getConn (text "a") { front := (cursorDb (text "a")).identity }, .getConn (text "a") {}]
  have hmeets : poolMachine.Meets Fronted (some { dbs := cursorDbs })
      [.getConn (text "a") { front := (cursorDb (text "a")).identity },
        .getConn (text "a") {}] := by
    refine ⟨fun info hdb _ => ?_, fun info hdb hpool => ?_, trivial⟩
    · obtain rfl := Option.some.inj ((show some (cursorDb (text "a")) = _ from rfl).trans hdb)
      rfl
    · obtain rfl := Option.some.inj ((show some (cursorDb (text "a")) = _ from rfl).trans hdb)
      cases hpool
  refine ⟨hiff.mp hmeets, _, rfl, ?_⟩
  refine hturns hmeets [_] [_] rfl _ (cursorDb (text "a")).identity ⟨some 0, [0]⟩ rfl rfl ?_ rfl
  intro node info hdb hkey
  rw [cursorDbs, FiniteMap.lookup_insert, FiniteMap.lookup_insert, FiniteMap.lookup_insert] at hdb
  split_ifs at hdb
  · obtain rfl := Option.some.inj hdb
    exact le_rfl
  · obtain rfl := Option.some.inj hdb
    exact le_rfl
  · obtain rfl := Option.some.inj hdb
    exact le_rfl
  · cases hdb

/-- A hash map may put an entry in front of another one of its bucket, and behind an entry of
another bucket. The pool of `c` is opened behind the one of `b`: its cursor points into a list that
is gone, and the next call for `c` walks it. -/
theorem cursors_dangle :
    ∃ s, poolMachine.run (some { dbs := cursorDbs })
        [.getConn (text "a") { front := (cursorDb (text "a")).identity },
          .getConn (text "b") { front := (cursorDb (text "b")).identity },
          .getConn (text "c") { front := (cursorDb (text "b")).identity }] = some s ∧
      ¬ s.Cursors ∧ s.getConn (text "c") {} = none := by
  refine ⟨_, rfl, fun h => ?_, rfl⟩
  obtain ⟨-, ⟨i, hiter, -⟩, -⟩ := h (cursorDb (text "c")).identity ⟨none, [2]⟩ rfl
  cases hiter

end Kimserver
