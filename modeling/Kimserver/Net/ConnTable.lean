import Kimserver.Lib.FiniteMap
import Kimserver.Net.Connection
import Kimserver.Util.Text

/-!
# The tables of connections

`Network` keeps its connections in two maps: `m_conns` by descriptor, and in a worker
`m_node_conns` by the id of the node at the other end. The second map holds pointers. A
connection is identified by its `fd_t`, its descriptor and the sequence number it was created
with, so a pointer is modelled by the `fd_t` of the object, and it is dangling when `get_conn`
does not find this object.

The operating system may give a new connection the number of one that was closed.

## Main definitions

* `FdT`, `Conn`, `ConnTable`: `fd_t`, the members of `Connection` and of `Network`
* `ConnTable.createConn`, `ConnTable.closeConn`, `ConnTable.getConn`, `ConnTable.addClientConn`,
  `ConnTable.updateConnState`: the operations
* `ConnTable.Numbered`: the connections have different sequence numbers

## Main results

* `ConnTable.lookup_createConn`, `ConnTable.lookup_closeConn`: what the two operations do
* `ConnTable.Numbered.createConn`, `ConnTable.Numbered.closeConn`: they keep the numbers apart
-/

namespace Kimserver

/-- `fd_t`. -/
structure FdT where
  fd : ℤ
  id : ℕ
  deriving DecidableEq, Repr

/-- The members of a connection that the tables and the handlers use. -/
structure Conn where
  id : ℕ
  nodeId : Bytes := []
  state : ConnState := .unknown
  system : Bool := false
  deriving DecidableEq, Repr

/-- `m_seq`, `m_conns` and `m_node_conns`. -/
structure ConnTable where
  seq : ℕ := 0
  conns : FiniteMap ℤ Conn := ∅
  nodeConns : FiniteMap Bytes FdT := ∅
  deriving DecidableEq

namespace ConnTable

/-- `close_conn` of a descriptor. -/
def closeConn (s : ConnTable) (fd : ℤ) : ConnTable :=
  if fd = -1 then s
  else
    match s.conns.lookup fd with
    | none => s
    | some c =>
      { s with
        conns := s.conns.erase fd
        nodeConns := if c.nodeId = [] then s.nodeConns else s.nodeConns.erase c.nodeId }

/-- `create_conn`: an old connection with this descriptor is closed first. -/
def createConn (s : ConnTable) (fd : ℤ) : ConnTable :=
  let s := if (s.conns.lookup fd).isSome then s.closeConn fd else s
  { s with seq := s.seq + 1, conns := s.conns.insert fd { id := s.seq + 1 } }

/-- `get_conn`. -/
def getConn (s : ConnTable) (f : FdT) : Option Conn :=
  match s.conns.lookup f.fd with
  | none => none
  | some c => if c.id ≠ f.id then none else some c

/-- Write the members of the connection with this descriptor. -/
def setConn (s : ConnTable) (fd : ℤ) (set : Conn → Conn) : ConnTable :=
  match s.conns.lookup fd with
  | none => s
  | some c => { s with conns := s.conns.insert fd (set c) }

/-- `update_conn_state`. -/
def updateConnState (s : ConnTable) (fd : ℤ) (state : ConnState) : ConnTable :=
  s.setConn fd fun c => { c with state := state }

/-- `add_client_conn`. -/
def addClientConn (s : ConnTable) (nodeId : Bytes) (f : FdT) : ConnTable :=
  match s.getConn f with
  | none => s
  | some _ => { s with nodeConns := s.nodeConns.insert nodeId f }

/-- The connections have different sequence numbers, all taken from `m_seq`, and none has the
descriptor that `close_conn` refuses. -/
structure Numbered (s : ConnTable) : Prop where
  le_seq : ∀ {fd c}, s.conns.lookup fd = some c → c.id ≤ s.seq
  injective : ∀ {fd fd' c c'}, s.conns.lookup fd = some c → s.conns.lookup fd' = some c' →
    c.id = c'.id → fd = fd'
  valid : ∀ {fd c}, s.conns.lookup fd = some c → fd ≠ -1

section Lookup

variable {s : ConnTable}

theorem getConn_eq_some {f : FdT} {c : Conn} :
    s.getConn f = some c ↔ s.conns.lookup f.fd = some c ∧ c.id = f.id := by
  unfold getConn
  cases hfd : s.conns.lookup f.fd with
  | none => simp
  | some d =>
    dsimp only
    split_ifs with hid
    · refine iff_of_false (by simp) ?_
      rintro ⟨heq, hc⟩
      rw [Option.some.inj heq] at hid
      exact hid hc
    · rw [not_not] at hid
      constructor
      · rintro heq
        rw [← Option.some.inj heq]
        exact ⟨rfl, hid⟩
      · exact fun h => h.1

theorem numbered_empty : Numbered {} where
  le_seq h := absurd h (by simp)
  injective h := absurd h (by simp)
  valid h := absurd h (by simp)

/-- The connections after a close. -/
theorem lookup_closeConn (h : s.Numbered) (fd x : ℤ) :
    (s.closeConn fd).conns.lookup x = if x = fd then none else s.conns.lookup x := by
  unfold closeConn
  split_ifs with hfd hx hx
  · rw [hx]
    cases hc : s.conns.lookup fd with
    | none => rfl
    | some c => exact absurd hfd (h.valid hc)
  · rfl
  · subst hx
    split
    · next hc => exact hc
    · simp
  · split
    · rfl
    · simp [hx]

/-- A close erases the entry of the node id that is recorded on the connection. -/
theorem lookup_nodeConns_closeConn (h : s.Numbered) {fd : ℤ} {c : Conn}
    (hc : s.conns.lookup fd = some c) (nodeId : Bytes) :
    (s.closeConn fd).nodeConns.lookup nodeId =
      if c.nodeId ≠ [] ∧ nodeId = c.nodeId then none else s.nodeConns.lookup nodeId := by
  unfold closeConn
  rw [if_neg (h.valid hc), hc]
  dsimp only
  by_cases hempty : c.nodeId = []
  · simp [hempty]
  · simp [hempty]

/-- A close of a descriptor without a connection changes nothing. -/
theorem closeConn_none {fd : ℤ} (hc : s.conns.lookup fd = none) : s.closeConn fd = s := by
  unfold closeConn
  rw [hc]
  split_ifs <;> rfl

theorem Numbered.closeConn (h : s.Numbered) (fd : ℤ) : (s.closeConn fd).Numbered := by
  have hseq : (s.closeConn fd).seq = s.seq := by
    unfold ConnTable.closeConn
    split_ifs
    · rfl
    · split <;> rfl
  have hkept : ∀ {x c}, (s.closeConn fd).conns.lookup x = some c → s.conns.lookup x = some c := by
    intro x c hc
    rw [lookup_closeConn h] at hc
    split_ifs at hc
    exact hc
  refine ⟨fun hc => ?_, fun hc hc' hid => ?_, fun hc => h.valid (hkept hc)⟩
  · rw [hseq]
    exact h.le_seq (hkept hc)
  · exact h.injective (hkept hc) (hkept hc') hid

/-- A descriptor that is new is not closed before the connection is made. -/
theorem createConn_new {fd : ℤ} (hc : s.conns.lookup fd = none) :
    s.createConn fd =
      { s with seq := s.seq + 1, conns := s.conns.insert fd { id := s.seq + 1 } } := by
  simp only [createConn, hc, Option.isSome_none, Bool.false_eq_true, if_false]

/-- A connection is made where the old one was closed. -/
theorem createConn_eq (s : ConnTable) (fd : ℤ) :
    s.createConn fd =
      { s.closeConn fd with
        seq := (s.closeConn fd).seq + 1
        conns := (s.closeConn fd).conns.insert fd { id := (s.closeConn fd).seq + 1 } } := by
  cases hc : s.conns.lookup fd with
  | none => rw [createConn_new hc, closeConn_none hc]
  | some c => simp only [createConn, hc, Option.isSome_some, if_true]

theorem closeConn_seq (s : ConnTable) (fd : ℤ) : (s.closeConn fd).seq = s.seq := by
  unfold closeConn
  split_ifs
  · rfl
  · split <;> rfl

/-- The connections after a creation. -/
theorem lookup_createConn (h : s.Numbered) (fd x : ℤ) :
    (s.createConn fd).conns.lookup x =
      if x = fd then some { id := s.seq + 1 } else s.conns.lookup x := by
  rw [createConn_eq]
  dsimp only
  rw [FiniteMap.lookup_insert, lookup_closeConn h, closeConn_seq]
  split_ifs <;> rfl

theorem createConn_nodeConns (s : ConnTable) (fd : ℤ) :
    (s.createConn fd).nodeConns = (s.closeConn fd).nodeConns := by
  rw [createConn_eq]

theorem createConn_seq (s : ConnTable) (fd : ℤ) : (s.createConn fd).seq = s.seq + 1 := by
  rw [createConn_eq]
  exact congrArg (· + 1) (closeConn_seq s fd)

theorem Numbered.createConn (h : s.Numbered) {fd : ℤ} (hfd : fd ≠ -1) :
    (s.createConn fd).Numbered := by
  refine ⟨fun {x c} hc => ?_, fun {x x' c c'} hc hc' hid => ?_, fun {x c} hc => ?_⟩
  · rw [lookup_createConn h] at hc
    rw [createConn_seq]
    split_ifs at hc with hx
    · rw [← Option.some.inj hc]
    · exact Nat.le_succ_of_le (h.le_seq hc)
  · rw [lookup_createConn h] at hc hc'
    split_ifs at hc hc' with hx hx' hx'
    · rw [hx, hx']
    · -- the number of the new connection was not in use
      have hle := h.le_seq hc'
      rw [← hid, ← Option.some.inj hc] at hle
      exact absurd hle (by simp)
    · have hle := h.le_seq hc
      rw [hid, ← Option.some.inj hc'] at hle
      exact absurd hle (by simp)
    · exact h.injective hc hc' hid
  · rw [lookup_createConn h] at hc
    split_ifs at hc with hx
    · rwa [hx]
    · exact h.valid hc

/-- The connections after a member was written. -/
theorem lookup_setConn (s : ConnTable) (fd x : ℤ) (set : Conn → Conn) :
    (s.setConn fd set).conns.lookup x =
      if x = fd then (s.conns.lookup fd).map set else s.conns.lookup x := by
  unfold setConn
  cases hc : s.conns.lookup fd with
  | none =>
    split_ifs with hx
    · rw [hx, hc]
      rfl
    · rfl
  | some c =>
    dsimp only
    rw [FiniteMap.lookup_insert]
    rfl

theorem setConn_nodeConns (s : ConnTable) (fd : ℤ) (set : Conn → Conn) :
    (s.setConn fd set).nodeConns = s.nodeConns := by
  unfold setConn
  split <;> rfl

theorem setConn_seq (s : ConnTable) (fd : ℤ) (set : Conn → Conn) :
    (s.setConn fd set).seq = s.seq := by
  unfold setConn
  split <;> rfl

theorem Numbered.setConn (h : s.Numbered) (fd : ℤ) {set : Conn → Conn}
    (hset : ∀ c, (set c).id = c.id) : (s.setConn fd set).Numbered := by
  -- the old members of a connection have its number
  have hold : ∀ {x c}, (s.setConn fd set).conns.lookup x = some c →
      ∃ d, s.conns.lookup x = some d ∧ c.id = d.id := by
    intro x c hc
    rw [lookup_setConn] at hc
    split_ifs at hc with hx
    · obtain ⟨d, hd, rfl⟩ := Option.map_eq_some_iff.mp hc
      exact ⟨d, by rw [hx, hd], hset d⟩
    · exact ⟨c, hc, rfl⟩
  refine ⟨fun hc => ?_, fun hc hc' hid => ?_, fun hc => ?_⟩
  · obtain ⟨d, hd, heq⟩ := hold hc
    rw [setConn_seq, heq]
    exact h.le_seq hd
  · obtain ⟨d, hd, heq⟩ := hold hc
    obtain ⟨d', hd', heq'⟩ := hold hc'
    exact h.injective hd hd' (heq.symm.trans (hid.trans heq'))
  · obtain ⟨d, hd, -⟩ := hold hc
    exact h.valid hd

theorem addClientConn_conns (s : ConnTable) (nodeId : Bytes) (f : FdT) :
    (s.addClientConn nodeId f).conns = s.conns ∧ (s.addClientConn nodeId f).seq = s.seq := by
  unfold addClientConn
  split <;> exact ⟨rfl, rfl⟩

/-- The sequence numbers read the connections only. -/
theorem Numbered.congr {t : ConnTable} (h : s.Numbered) (hconns : t.conns = s.conns)
    (hseq : t.seq = s.seq) : t.Numbered where
  le_seq hc := hseq ▸ h.le_seq (hconns ▸ hc)
  injective hc hc' := h.injective (hconns ▸ hc) (hconns ▸ hc')
  valid hc := h.valid (hconns ▸ hc)

end Lookup

end ConnTable

end Kimserver
