import Mathlib.Order.Defs.LinearOrder
import Kimserver.Lib.FiniteMap
import Kimserver.Lib.Machine
import Kimserver.Util.Text

/-!
# Sessions and their timers

A session keeps data of a user between commands. `SessionMgr` stores the sessions by their
`sessid`, and each stored session has a timer, which deletes it when it was not used for a while.
`get_alloc_session` looks a session up and makes a new one where there is none, or where the one
that it finds has another class.

The key of a session is the string to which `const char* sessid()` points, which ends at the
first zero byte of `m_sessid`. The times are of an arbitrary type with a difference and a
comparison. Whether a timer can be allocated, what `on_timeout` returns, the clock, and the
address of a new session are part of an event.

## Main definitions

* `Session`, `SessionMgr`: a session, and the table with the sessions that were not deleted
* `SessionMgr.addSession`, `SessionMgr.getSession`, `SessionMgr.delSession`,
  `SessionMgr.onSessionTimer`, `SessionMgr.getAllocSession`: the functions
* `SessionEvent`, `sessionMachine`: what happens to the sessions
* `SessionMgr.Coincide`: the sessions with a timer are those in the table
* `SessionMgr.Honest`: `add_session` and `get_alloc_session` do what they return
* `SessionMgr.Unrivalled`: no other session has the key of the session that is added

## Main results

* `SessionMgr.Coincide.step`: every event keeps the timers and the table together
* `sessions_managed_iff`: what is returned is true exactly where no session has a rival
-/

namespace Kimserver

/-- `Session::STATUS`. -/
inductive SessionStatus
  | unknown
  | ok
  | running
  | error
  deriving DecidableEq

/-- `SESSION_MAX_TIMEOUT_CNT`. -/
def sessionMaxTimeoutCnt : ℤ := 3

/-- A session: its class, `m_sessid`, the members of `Timer`, and whether `m_timer` is armed. -/
structure Session (τ : Type) where
  cls : ℕ
  mSessid : Bytes
  activeTime : τ
  keepAlive : τ
  curTimeoutCnt : ℤ := 0
  maxTimeoutCnt : ℤ := sessionMaxTimeoutCnt
  armed : Bool := false

/-- `sessid()` of a session that is not const. -/
def Session.sessid {τ : Type} (x : Session τ) : Bytes := cStr x.mSessid

/-- `m_sessions`, and the sessions that exist, by their address. -/
structure SessionMgr (τ : Type) where
  sessions : FiniteMap Bytes ℕ := ∅
  heap : FiniteMap ℕ (Session τ) := ∅

namespace SessionMgr

section Functions

variable {τ : Type} (m : SessionMgr τ)

/-- A member of a session is written. -/
def write (s : ℕ) (x : Session τ) : SessionMgr τ := { m with heap := m.heap.insert s x }

/-- `add_session`; `timer` says whether `add_session_timer` succeeds. -/
def addSession (s : ℕ) (now : τ) (timer : Bool) : Bool × SessionMgr τ :=
  match m.heap.lookup s with
  | none => (false, m)
  | some x =>
    if (m.sessions.lookup x.sessid).isSome then (true, m.write s { x with activeTime := now })
    else
      let m := { m with sessions := m.sessions.insert x.sessid s }
      if timer then (true, m.write s { x with armed := true })
      else (false, { m with sessions := m.sessions.erase x.sessid })

/-- `get_session`. -/
def getSession (sessid : Bytes) (reActive : Bool) (now : τ) : Option ℕ × SessionMgr τ :=
  match m.sessions.lookup sessid with
  | none => (none, m)
  | some s =>
    match m.heap.lookup s with
    | none => (some s, m)
    | some x => (some s, if reActive then m.write s { x with activeTime := now } else m)

/-- `del_session`: the timer is stopped and the session deleted. -/
def delSession (sessid : Bytes) : Bool × SessionMgr τ :=
  match m.sessions.lookup sessid with
  | none => (false, m)
  | some s => (true, { heap := m.heap.erase s, sessions := m.sessions.erase sessid })

/-- `on_session_timer`, where `on_timeout` returns `status` and leaves `cnt` in
`m_cur_timeout_cnt`. A timer that is restarted stays armed. -/
def onSessionTimer [Sub τ] [Zero τ] [LT τ] [DecidableLT τ] (s : ℕ) (now : τ)
    (status : SessionStatus) (cnt : ℤ) : SessionMgr τ :=
  match m.heap.lookup s with
  | none => m
  | some x =>
    if 0 < x.keepAlive - (now - x.activeTime) then m
    else
      let old := x.curTimeoutCnt
      let x := { x with curTimeoutCnt := cnt }
      let m := m.write s x
      if status ≠ .running then (m.delSession x.sessid).2
      else
        let x := if old = x.curTimeoutCnt then { x with curTimeoutCnt := cnt + 1 } else x
        let m := m.write s x
        if x.maxTimeoutCnt ≤ x.curTimeoutCnt then (m.delSession x.sessid).2 else m

/-- `new` and `init`, at an address where nothing is. -/
def newSession (s : ℕ) (cls : ℕ) (sessid : Bytes) (secs now : τ) : SessionMgr τ :=
  m.write s { cls, mSessid := sessid, activeTime := now, keepAlive := secs }

/-- The session that `dynamic_cast<T*>` leaves; `derives c t` says whether the class `c` is `t` or
derives from it. -/
def castTo (derives : ℕ → ℕ → Bool) (t : ℕ) (found : Option ℕ) : Option ℕ :=
  found.filter fun s =>
    match m.heap.lookup s with
    | none => false
    | some x => derives x.cls t

/-- `get_alloc_session<T>`; a new session gets the address `s`. -/
def getAllocSession (derives : ℕ → ℕ → Bool) (t : ℕ) (s : ℕ) (sessid : Bytes) (secs : τ)
    (reActive : Bool) (now : τ) (timer : Bool) : Option ℕ × SessionMgr τ :=
  let (found, m) := m.getSession sessid reActive now
  match m.castTo derives t found with
  | some s => (some s, m)
  | none =>
    match (m.newSession s t sessid secs now).addSession s now timer with
    | (true, m) => (some s, m)
    | (false, m) => (none, { m with heap := m.heap.erase s })

end Functions

end SessionMgr

/-- What happens to the sessions. -/
inductive SessionEvent (τ : Type)
  /-- a session is made with `new` and `init`, without the table -/
  | create (s : ℕ) (cls : ℕ) (sessid : Bytes) (secs now : τ)
  | add (s : ℕ) (now : τ) (timer : Bool)
  | get (sessid : Bytes) (reActive : Bool) (now : τ)
  | del (sessid : Bytes)
  | timeout (s : ℕ) (now : τ) (status : SessionStatus) (cnt : ℤ)
  | getAlloc (t : ℕ) (s : ℕ) (sessid : Bytes) (secs : τ) (reActive : Bool) (now : τ) (timer : Bool)

namespace SessionMgr

section Steps

variable {τ : Type} (derives : ℕ → ℕ → Bool) (m : SessionMgr τ)

/-- The timer of a session can expire. -/
def isArmed (s : ℕ) : Bool :=
  match m.heap.lookup s with
  | none => false
  | some x => x.armed

/-- One event. A new session has an address of its own, and only a timer that is armed expires. -/
def step [Sub τ] [Zero τ] [LT τ] [DecidableLT τ] : SessionEvent τ → SessionMgr τ
  | .create s cls sessid secs now =>
    if (m.heap.lookup s).isSome then m else m.newSession s cls sessid secs now
  | .add s now timer => (m.addSession s now timer).2
  | .get sessid reActive now => (m.getSession sessid reActive now).2
  | .del sessid => (m.delSession sessid).2
  | .timeout s now status cnt => if m.isArmed s then m.onSessionTimer s now status cnt else m
  | .getAlloc t s sessid secs reActive now timer =>
    if (m.heap.lookup s).isSome then m
    else (m.getAllocSession derives t s sessid secs reActive now timer).2

/-- The session is the one that `get_session` finds by its `sessid`. -/
def Stores (s : ℕ) (now : τ) : Prop :=
  ∃ x, m.heap.lookup s = some x ∧ (m.getSession x.sessid false now).1 = some s

/-- What `add_session` and `get_alloc_session` return is true: the session that was added or is
handed out is stored, and without one the table is unchanged. -/
def Honest : SessionEvent τ → Prop
  | .add s now timer =>
    let r := m.addSession s now timer
    (r.1 = true → r.2.Stores s now) ∧ (r.1 = false → r.2.sessions = m.sessions)
  | .getAlloc t s sessid secs reActive now timer => m.heap.lookup s = none →
    let r := m.getAllocSession derives t s sessid secs reActive now timer
    (∀ s', r.1 = some s' → r.2.Stores s' now) ∧ (r.1 = none → r.2.sessions = m.sessions)
  | _ => True

/-- No other session is stored under the key of the session that is added. -/
def Unrivalled : SessionEvent τ → Prop
  | .add s _ _ => ∀ x, m.heap.lookup s = some x →
      m.sessions.lookup x.sessid = none ∨ m.sessions.lookup x.sessid = some s
  | .getAlloc t s sessid _ _ _ _ => m.heap.lookup s = none →
      m.castTo derives t (m.sessions.lookup sessid) = none → m.sessions.lookup (cStr sessid) = none
  | _ => True

end Steps

end SessionMgr

/-- The runs of the sessions of a process. -/
def sessionMachine {τ : Type} [Sub τ] [Zero τ] [LT τ] [DecidableLT τ]
    (derives : ℕ → ℕ → Bool) : Machine (SessionMgr τ) (SessionEvent τ) :=
  ⟨fun m e => m.step derives e⟩

namespace SessionMgr

variable {τ : Type} {derives : ℕ → ℕ → Bool} {m : SessionMgr τ}

/-! ## The timers and the table -/

/-- The sessions with an armed timer are the sessions in the table, each under its `sessid`. -/
structure Coincide (m : SessionMgr τ) : Prop where
  stored : ∀ {k : Bytes} {s : ℕ}, m.sessions.lookup k = some s →
    ∃ x, m.heap.lookup s = some x ∧ x.armed = true ∧ x.sessid = k
  armed : ∀ {s : ℕ} {x : Session τ}, m.heap.lookup s = some x → x.armed = true →
    m.sessions.lookup x.sessid = some s

theorem coincide_empty : Coincide ({} : SessionMgr τ) where
  stored h := by simp at h
  armed h := by simp at h

/-- Nothing is stored at an address without a session. -/
theorem Coincide.not_stored (h : m.Coincide) {s : ℕ} (hs : m.heap.lookup s = none) (k : Bytes) :
    m.sessions.lookup k ≠ some s := by
  intro hk
  obtain ⟨x, hx, -⟩ := h.stored hk
  rw [hs] at hx
  cases hx

/-- A session that is made is not armed. -/
theorem Coincide.newSession (h : m.Coincide) {s : ℕ} (hs : m.heap.lookup s = none) (cls : ℕ)
    (sessid : Bytes) (secs now : τ) : (m.newSession s cls sessid secs now).Coincide where
  stored {k s'} hk := by
    obtain ⟨x, hx, hrest⟩ := h.stored hk
    refine ⟨x, ?_, hrest⟩
    have hne : s' ≠ s := fun heq => h.not_stored hs k (heq ▸ hk)
    change (m.heap.insert s _).lookup s' = some x
    rw [FiniteMap.lookup_insert, if_neg hne]
    exact hx
  armed {s' x} hx harmed := by
    change (m.heap.insert s _).lookup s' = some x at hx
    rw [FiniteMap.lookup_insert] at hx
    split_ifs at hx
    · obtain rfl := Option.some.inj hx
      cases harmed
    · exact h.armed hx harmed

/-- A write that changes neither the timer nor the key. -/
theorem Coincide.write (h : m.Coincide) {s : ℕ} {x y : Session τ} (hx : m.heap.lookup s = some x)
    (harmed : y.armed = x.armed) (hkey : y.sessid = x.sessid) : (m.write s y).Coincide where
  stored {k s'} hk := by
    obtain ⟨z, hz, hrest⟩ := h.stored hk
    change ∃ x, (m.heap.insert s y).lookup s' = some x ∧ _
    rw [FiniteMap.lookup_insert]
    split_ifs with heq
    · obtain rfl := heq
      obtain rfl := Option.some.inj (hx.symm.trans hz)
      exact ⟨y, rfl, harmed.trans hrest.1, hkey.trans hrest.2⟩
    · exact ⟨z, hz, hrest⟩
  armed {s' z} hz hzarmed := by
    change (m.heap.insert s y).lookup s' = some z at hz
    rw [FiniteMap.lookup_insert] at hz
    split_ifs at hz with heq
    · obtain rfl := heq
      obtain rfl := Option.some.inj hz
      rw [hkey]
      exact h.armed hx (harmed ▸ hzarmed)
    · exact h.armed hz hzarmed

/-- A session gets its entry and its timer. -/
theorem Coincide.arm (h : m.Coincide) {s : ℕ} {x : Session τ} (hx : m.heap.lookup s = some x)
    (hfree : m.sessions.lookup x.sessid = none) :
    Coincide { heap := m.heap.insert s { x with armed := true }
               sessions := m.sessions.insert x.sessid s } where
  stored {k s'} hk := by
    rw [FiniteMap.lookup_insert] at hk
    split_ifs at hk with heq
    · obtain rfl := Option.some.inj hk
      refine ⟨{ x with armed := true }, ?_, rfl, heq.symm⟩
      rw [FiniteMap.lookup_insert, if_pos rfl]
    · obtain ⟨z, hz, hrest⟩ := h.stored hk
      -- the session was not stored before
      have hne : s' ≠ s := by
        rintro rfl
        obtain rfl := Option.some.inj (hx.symm.trans hz)
        exact heq hrest.2.symm
      refine ⟨z, ?_, hrest⟩
      rw [FiniteMap.lookup_insert, if_neg hne]
      exact hz
  armed {s' z} hz hzarmed := by
    rw [FiniteMap.lookup_insert] at hz
    split_ifs at hz with heq
    · obtain rfl := heq
      obtain rfl := Option.some.inj hz
      change (m.sessions.insert x.sessid s').lookup x.sessid = some s'
      rw [FiniteMap.lookup_insert, if_pos rfl]
    · have hold := h.armed hz hzarmed
      have hne : z.sessid ≠ x.sessid := by
        intro hkey
        rw [hkey, hfree] at hold
        cases hold
      rw [FiniteMap.lookup_insert, if_neg hne]
      exact hold

theorem erase_insert {k : Bytes} (hfree : m.sessions.lookup k = none) (s : ℕ) :
    (m.sessions.insert k s).erase k = m.sessions := by
  apply Finmap.ext_lookup
  intro k'
  rw [FiniteMap.lookup_erase, FiniteMap.lookup_insert]
  split_ifs with heq
  · rw [heq, hfree]
  · rfl

/-! ## The functions -/

/-- **What `add_session` does**: there is no session, its key is taken, it is stored with a timer,
or nothing changes. -/
theorem addSession_cases (m : SessionMgr τ) (s : ℕ) (now : τ) (timer : Bool) :
    (m.heap.lookup s = none ∧ m.addSession s now timer = (false, m)) ∨
    ∃ x, m.heap.lookup s = some x ∧
      ((∃ s', m.sessions.lookup x.sessid = some s' ∧
          m.addSession s now timer = (true, m.write s { x with activeTime := now })) ∨
        (m.sessions.lookup x.sessid = none ∧
          (m.addSession s now timer = (true, { heap := m.heap.insert s { x with armed := true }
                                               sessions := m.sessions.insert x.sessid s }) ∨
            m.addSession s now timer = (false, m)))) := by
  unfold addSession
  cases hx : m.heap.lookup s with
  | none => exact Or.inl ⟨rfl, rfl⟩
  | some x =>
    refine Or.inr ⟨x, rfl, ?_⟩
    dsimp only
    cases hkey : m.sessions.lookup x.sessid with
    | some s' => exact Or.inl ⟨s', rfl, if_pos rfl⟩
    | none =>
      refine Or.inr ⟨rfl, ?_⟩
      cases timer with
      | true => exact Or.inl rfl
      | false =>
        refine Or.inr ?_
        rw [if_neg (by simp), if_neg (by simp), erase_insert hkey]

theorem Coincide.addSession (h : m.Coincide) (s : ℕ) (now : τ) (timer : Bool) :
    (m.addSession s now timer).2.Coincide := by
  obtain ⟨-, heq⟩ | ⟨x, hx, ⟨s', -, heq⟩ | ⟨hfree, heq | heq⟩⟩ := m.addSession_cases s now timer
  · rw [heq]
    exact h
  · rw [heq]
    exact h.write hx rfl rfl
  · rw [heq]
    exact h.arm hx hfree
  · rw [heq]
    exact h

theorem getSession_fst (m : SessionMgr τ) (sessid : Bytes) (reActive : Bool) (now : τ) :
    (m.getSession sessid reActive now).1 = m.sessions.lookup sessid := by
  unfold getSession
  cases m.sessions.lookup sessid with
  | none => rfl
  | some s =>
    dsimp only
    split <;> rfl

theorem stores_iff {s : ℕ} {now : τ} : m.Stores s now ↔
    ∃ x, m.heap.lookup s = some x ∧ m.sessions.lookup x.sessid = some s := by
  unfold Stores
  simp only [getSession_fst]

/-- The session that is found is only touched. -/
theorem getSession_snd (m : SessionMgr τ) (sessid : Bytes) (reActive : Bool) (now : τ) :
    (m.getSession sessid reActive now).2 = m ∨ ∃ s x, m.heap.lookup s = some x ∧
      (m.getSession sessid reActive now).2 = m.write s { x with activeTime := now } := by
  unfold getSession
  cases m.sessions.lookup sessid with
  | none => exact Or.inl rfl
  | some s =>
    dsimp only
    cases hx : m.heap.lookup s with
    | none => exact Or.inl rfl
    | some x =>
      cases reActive with
      | true => exact Or.inr ⟨s, x, hx, rfl⟩
      | false => exact Or.inl rfl

theorem getSession_sessions (m : SessionMgr τ) (sessid : Bytes) (reActive : Bool) (now : τ) :
    (m.getSession sessid reActive now).2.sessions = m.sessions := by
  obtain heq | ⟨s, x, -, heq⟩ := m.getSession_snd sessid reActive now
  · rw [heq]
  · rw [heq]
    rfl

theorem Coincide.getSession (h : m.Coincide) (sessid : Bytes) (reActive : Bool) (now : τ) :
    (m.getSession sessid reActive now).2.Coincide := by
  obtain heq | ⟨s, x, hx, heq⟩ := m.getSession_snd sessid reActive now
  · rw [heq]
    exact h
  · rw [heq]
    exact h.write hx rfl rfl

/-- A session keeps its class, and the others do. -/
theorem getSession_castTo (m : SessionMgr τ) (sessid : Bytes) (reActive : Bool) (now : τ)
    (t : ℕ) (found : Option ℕ) :
    (m.getSession sessid reActive now).2.castTo derives t found = m.castTo derives t found := by
  obtain heq | ⟨s, x, hx, heq⟩ := m.getSession_snd sessid reActive now
  · rw [heq]
  · rw [heq]
    unfold castTo
    congr 1
    funext s'
    change (match (m.heap.insert s { x with activeTime := now }).lookup s' with
      | none => false
      | some x => derives x.cls t) = _
    rw [FiniteMap.lookup_insert]
    by_cases heq' : s' = s
    · rw [if_pos heq', heq', hx]
    · rw [if_neg heq']

theorem getSession_lookup_eq_none (sessid : Bytes) (reActive : Bool) (now : τ) {s : ℕ}
    (hs : m.heap.lookup s = none) :
    (m.getSession sessid reActive now).2.heap.lookup s = none := by
  obtain heq | ⟨s', x, hx, heq⟩ := m.getSession_snd sessid reActive now
  · rw [heq]
    exact hs
  · rw [heq]
    change (m.heap.insert s' _).lookup s = none
    rw [FiniteMap.lookup_insert, if_neg]
    · exact hs
    · rintro rfl
      rw [hs] at hx
      cases hx

theorem Coincide.delSession (h : m.Coincide) (sessid : Bytes) : (m.delSession sessid).2.Coincide := by
  unfold SessionMgr.delSession
  cases hs : m.sessions.lookup sessid with
  | none => exact h
  | some s =>
    obtain ⟨x, hx, -, hkey⟩ := h.stored hs
    constructor
    · intro k s' hk
      rw [FiniteMap.lookup_erase] at hk
      split_ifs at hk with hne
      obtain ⟨z, hz, hrest⟩ := h.stored hk
      refine ⟨z, ?_, hrest⟩
      rw [FiniteMap.lookup_erase, if_neg]
      · exact hz
      · rintro rfl
        obtain rfl := Option.some.inj (hx.symm.trans hz)
        exact hne (hrest.2.symm.trans hkey)
    · intro s' z hz harmed
      rw [FiniteMap.lookup_erase] at hz
      split_ifs at hz with hne
      have hold := h.armed hz harmed
      rw [FiniteMap.lookup_erase, if_neg]
      · exact hold
      · intro heq
        rw [heq, hs] at hold
        exact hne (Option.some.inj hold).symm

theorem Coincide.onSessionTimer [Sub τ] [Zero τ] [LT τ] [DecidableLT τ] (h : m.Coincide) (s : ℕ)
    (now : τ) (status : SessionStatus) (cnt : ℤ) :
    (m.onSessionTimer s now status cnt).Coincide := by
  unfold SessionMgr.onSessionTimer
  cases hx : m.heap.lookup s with
  | none => exact h
  | some x =>
    dsimp only
    -- `on_timeout` and the count leave the timer and the key alone
    have hcalled : (m.write s { x with curTimeoutCnt := cnt }).Coincide := h.write hx rfl rfl
    have hcounted : ∀ c, ((m.write s { x with curTimeoutCnt := cnt }).write s
        { x with curTimeoutCnt := c }).Coincide := by
      intro c
      refine hcalled.write (x := { x with curTimeoutCnt := cnt }) ?_ rfl rfl
      change (m.heap.insert s _).lookup s = _
      rw [FiniteMap.lookup_insert, if_pos rfl]
    split_ifs
    · exact h
    · exact hcalled.delSession _
    · exact (hcounted (cnt + 1)).delSession _
    · exact hcounted (cnt + 1)
    · exact (hcounted cnt).delSession _
    · exact hcounted cnt

/-- **What `get_alloc_session` does**: it hands out the session that it finds, or makes one and
adds it. -/
theorem getAllocSession_cases (m : SessionMgr τ) (derives : ℕ → ℕ → Bool) (t s : ℕ)
    (sessid : Bytes) (secs : τ) (reActive : Bool) (now : τ) (timer : Bool) :
    (∃ s', m.castTo derives t (m.sessions.lookup sessid) = some s' ∧
      m.getAllocSession derives t s sessid secs reActive now timer =
        (some s', (m.getSession sessid reActive now).2)) ∨
    (m.castTo derives t (m.sessions.lookup sessid) = none ∧ ∃ r,
      (((m.getSession sessid reActive now).2.newSession s t sessid secs now).addSession s now
        timer) = r ∧ m.getAllocSession derives t s sessid secs reActive now timer =
          if r.1 then (some s, r.2) else (none, { r.2 with heap := r.2.heap.erase s })) := by
  have hcast : (m.getSession sessid reActive now).2.castTo derives t
      (m.getSession sessid reActive now).1 = m.castTo derives t (m.sessions.lookup sessid) := by
    rw [getSession_castTo, getSession_fst]
  unfold getAllocSession
  dsimp only
  rw [hcast]
  cases m.castTo derives t (m.sessions.lookup sessid) with
  | some s' => exact Or.inl ⟨s', rfl, rfl⟩
  | none =>
    refine Or.inr ⟨rfl, _, rfl, ?_⟩
    dsimp only
    split
    · next heq =>
      rw [heq]
      rfl
    · next heq =>
      rw [heq]
      rfl

/-- A session that could not be stored is deleted. -/
theorem Coincide.drop (h : m.Coincide) {s : ℕ} (hs : ∀ k, m.sessions.lookup k ≠ some s) :
    Coincide { m with heap := m.heap.erase s } where
  stored {k s'} hk := by
    obtain ⟨x, hx, hrest⟩ := h.stored hk
    refine ⟨x, ?_, hrest⟩
    rw [FiniteMap.lookup_erase, if_neg]
    · exact hx
    · rintro rfl
      exact hs k hk
  armed {s' x} hx harmed := by
    rw [FiniteMap.lookup_erase] at hx
    split_ifs at hx
    exact h.armed hx harmed

theorem newSession_lookup (m : SessionMgr τ) (s cls : ℕ) (sessid : Bytes) (secs now : τ) :
    (m.newSession s cls sessid secs now).heap.lookup s =
      some { cls, mSessid := sessid, activeTime := now, keepAlive := secs } := by
  change (m.heap.insert s _).lookup s = _
  rw [FiniteMap.lookup_insert, if_pos rfl]

theorem Coincide.getAllocSession (h : m.Coincide) (t : ℕ) {s : ℕ} (hs : m.heap.lookup s = none)
    (sessid : Bytes) (secs : τ) (reActive : Bool) (now : τ) (timer : Bool) :
    (m.getAllocSession derives t s sessid secs reActive now timer).2.Coincide := by
  obtain ⟨s', -, heq⟩ | ⟨-, r, hr, heq⟩ :=
    m.getAllocSession_cases derives t s sessid secs reActive now timer
  · rw [heq]
    exact h.getSession sessid reActive now
  · have hfree := getSession_lookup_eq_none sessid reActive now hs
    have hnew := (h.getSession sessid reActive now).newSession hfree t sessid secs now
    have hadded := hnew.addSession s now timer
    rw [hr] at hadded
    rw [heq]
    split_ifs with hr1
    · exact hadded
    · refine hadded.drop fun k => ?_
      -- the new session is not in the table
      obtain ⟨hnone, -⟩ | ⟨x, -, ⟨s', -, hok⟩ | ⟨-, hok | hfail⟩⟩ := addSession_cases
        ((m.getSession sessid reActive now).2.newSession s t sessid secs now) s now timer
      · rw [newSession_lookup] at hnone
        cases hnone
      · rw [← hr, hok] at hr1
        exact absurd rfl hr1
      · rw [← hr, hok] at hr1
        exact absurd rfl hr1
      · rw [← hr, hfail]
        exact (h.getSession sessid reActive now).not_stored hfree k

/-- **Every event** keeps the timers and the table together. -/
theorem Coincide.step [Sub τ] [Zero τ] [LT τ] [DecidableLT τ] (h : m.Coincide)
    (e : SessionEvent τ) : (m.step derives e).Coincide := by
  cases e with
  | create s cls sessid secs now =>
    simp only [SessionMgr.step]
    split_ifs with hs
    · exact h
    · exact h.newSession (Option.not_isSome_iff_eq_none.mp hs) cls sessid secs now
  | add s now timer => exact h.addSession s now timer
  | get sessid reActive now => exact h.getSession sessid reActive now
  | del sessid => exact h.delSession sessid
  | timeout s now status cnt =>
    simp only [SessionMgr.step]
    split_ifs
    · exact h.onSessionTimer s now status cnt
    · exact h
  | getAlloc t s sessid secs reActive now timer =>
    simp only [SessionMgr.step]
    split_ifs with hs
    · exact h
    · exact h.getAllocSession t (Option.not_isSome_iff_eq_none.mp hs) sessid secs reActive now timer

/-! ## What is returned -/

/-- `add_session` is honest exactly when no other session has the key. -/
theorem addSession_honest_iff {s : ℕ} {x : Session τ} (hx : m.heap.lookup s = some x) (now : τ)
    (timer : Bool) :
    (((m.addSession s now timer).1 = true → (m.addSession s now timer).2.Stores s now) ∧
      ((m.addSession s now timer).1 = false →
        (m.addSession s now timer).2.sessions = m.sessions)) ↔
      (m.sessions.lookup x.sessid = none ∨ m.sessions.lookup x.sessid = some s) := by
  obtain ⟨hnone, -⟩ | ⟨y, hy, hcases⟩ := m.addSession_cases s now timer
  · rw [hx] at hnone
    cases hnone
  · obtain rfl := Option.some.inj (hx.symm.trans hy)
    obtain ⟨s', hs', heq⟩ | ⟨hfree, heq | heq⟩ := hcases
    · -- the key is taken, and the session is only touched
      have hstores : (m.write s { x with activeTime := now }).Stores s now ↔
          m.sessions.lookup x.sessid = some s := by
        rw [stores_iff]
        change (∃ z, (m.heap.insert s _).lookup s = some z ∧ m.sessions.lookup z.sessid = some s) ↔ _
        rw [FiniteMap.lookup_insert, if_pos rfl]
        constructor
        · rintro ⟨z, hz, hlookup⟩
          obtain rfl := Option.some.inj hz
          exact hlookup
        · exact fun hlookup => ⟨_, rfl, hlookup⟩
      rw [heq]
      constructor
      · rintro ⟨hadded, -⟩
        exact Or.inr (hstores.mp (hadded rfl))
      · rintro (hnone | hsame)
        · rw [hs'] at hnone
          cases hnone
        · exact ⟨fun _ => hstores.mpr hsame, (by rintro ⟨⟩)⟩
    · rw [heq]
      refine iff_of_true ⟨fun _ => ?_, (by rintro ⟨⟩)⟩ (Or.inl hfree)
      refine stores_iff.mpr ⟨{ x with armed := true }, ?_, ?_⟩
      · rw [FiniteMap.lookup_insert, if_pos rfl]
      · change (m.sessions.insert x.sessid s).lookup x.sessid = some s
        rw [FiniteMap.lookup_insert, if_pos rfl]
    · rw [heq]
      exact iff_of_true ⟨(by rintro ⟨⟩), fun _ => rfl⟩ (Or.inl hfree)

/-- A session that is found under a key is stored under it. -/
theorem Coincide.stores_of_castTo (h : m.Coincide) {t s : ℕ} {k : Bytes} {now : τ}
    (hs : m.castTo derives t (m.sessions.lookup k) = some s) : m.Stores s now := by
  have hk : m.sessions.lookup k = some s := (Option.filter_eq_some_iff.mp hs).1
  obtain ⟨x, hx, -, hkey⟩ := h.stored hk
  exact stores_iff.mpr ⟨x, hx, by rw [hkey]; exact hk⟩

theorem getAllocSession_honest_iff (h : m.Coincide) {t s : ℕ} (hs : m.heap.lookup s = none)
    (sessid : Bytes) (secs : τ) (reActive : Bool) (now : τ) (timer : Bool) :
    ((∀ s', (m.getAllocSession derives t s sessid secs reActive now timer).1 = some s' →
        (m.getAllocSession derives t s sessid secs reActive now timer).2.Stores s' now) ∧
      ((m.getAllocSession derives t s sessid secs reActive now timer).1 = none →
        (m.getAllocSession derives t s sessid secs reActive now timer).2.sessions =
          m.sessions)) ↔
      (m.castTo derives t (m.sessions.lookup sessid) = none →
        m.sessions.lookup (cStr sessid) = none) := by
  have hsessions := m.getSession_sessions sessid reActive now
  obtain ⟨s', hs', heq⟩ | ⟨hnone, r, hr, heq⟩ :=
    m.getAllocSession_cases derives t s sessid secs reActive now timer
  · -- a session is found, and handed out
    rw [heq, hs']
    refine iff_of_true ⟨fun s'' hs'' => ?_, (by rintro ⟨⟩)⟩ (by rintro ⟨⟩)
    obtain rfl := Option.some.inj hs''
    have hcast : (m.getSession sessid reActive now).2.castTo derives t
        ((m.getSession sessid reActive now).2.sessions.lookup sessid) = some s' := by
      rw [getSession_castTo, hsessions]
      exact hs'
    exact (h.getSession sessid reActive now).stores_of_castTo hcast
  · -- a session is made, which is not stored yet
    have hadd := addSession_honest_iff
      (newSession_lookup (m.getSession sessid reActive now).2 s t sessid secs now) now timer
    rw [hr] at hadd
    have hfresh : m.sessions.lookup (cStr sessid) ≠ some s := h.not_stored hs _
    have hkey : ((m.getSession sessid reActive now).2.newSession s t sessid secs now).sessions =
        m.sessions := hsessions
    rw [hkey] at hadd
    rw [heq, hnone]
    obtain ⟨ok, m'⟩ := r
    cases ok with
    | true => simpa [Session.sessid, hfresh] using hadd
    | false => simpa [Session.sessid, hfresh] using hadd

/-- **One event** is honest exactly when no session has a rival. -/
theorem honest_iff_unrivalled (h : m.Coincide) (e : SessionEvent τ) :
    m.Honest derives e ↔ m.Unrivalled derives e := by
  cases e with
  | add s now timer =>
    cases hx : m.heap.lookup s with
    | none =>
      have hadd : m.addSession s now timer = (false, m) := by
        unfold addSession
        rw [hx]
      refine iff_of_true ?_ fun x hx' => ?_
      · simp [Honest, hadd]
      · rw [hx] at hx'
        cases hx'
    | some x =>
      refine (addSession_honest_iff hx now timer).trans ?_
      constructor
      · intro hkey y hy
        obtain rfl := Option.some.inj (hx.symm.trans hy)
        exact hkey
      · exact fun hall => hall x hx
  | getAlloc t s sessid secs reActive now timer =>
    exact forall_congr' fun hs => getAllocSession_honest_iff h hs sessid secs reActive now timer
  | create => exact Iff.rfl
  | get => exact Iff.rfl
  | del => exact Iff.rfl
  | timeout => exact Iff.rfl

end SessionMgr

section Runs

variable {τ : Type} [Sub τ] [Zero τ] [LT τ] [DecidableLT τ] (derives : ℕ → ℕ → Bool)

/-- **Managed sessions**: in every run the sessions with an armed timer are those in the table,
each under its own `sessid`; and `add_session` and `get_alloc_session` keep what they return in
every step of the run if and only if no session is added while another one has its key. -/
theorem sessions_managed_iff (es : List (SessionEvent τ)) :
    (sessionMachine derives).Meets (SessionMgr.Unrivalled derives) {} es ↔
      (∀ past, past <+: es → ((sessionMachine derives).run {} past).Coincide) ∧
      ∀ past e, past ++ [e] <+: es → ((sessionMachine derives).run {} past).Honest derives e := by
  have hkeep : ∀ (m : SessionMgr τ) (e : SessionEvent τ), m.Coincide →
      ((sessionMachine derives).step m e).Coincide := fun _ e h => h.step e
  have hinv : ∀ past, ((sessionMachine derives).run {} past).Coincide :=
    (sessionMachine derives).run_invariant hkeep SessionMgr.coincide_empty
  have hcongr : (sessionMachine derives).Meets (SessionMgr.Unrivalled derives) {} es ↔
      (sessionMachine derives).Meets (SessionMgr.Honest derives) {} es := by
    refine Machine.Meets.congr (I := SessionMgr.Coincide) ?_ ?_ SessionMgr.coincide_empty es
    · exact fun m e h => (SessionMgr.honest_iff_unrivalled h e).symm
    · exact fun m e h _ => hkeep m e h
  rw [hcongr, Machine.Meets.iff_forall_step]
  exact ⟨fun h => ⟨fun past _ => hinv past, h⟩, fun h => h.2⟩

end Runs

/-- Two commands make a session with the same id, and both add it. -/
def twoSessions : List (SessionEvent ℤ) :=
  [.create 1 0 [107] 60 0, .add 1 0 true, .create 2 0 [107] 60 5, .add 2 5 true]

/-- The second session is not stored, and it has no timer. -/
theorem twoSessions_lost :
    ¬ ((∀ past, past <+: twoSessions →
          ((sessionMachine fun c t => c == t).run {} past).Coincide) ∧
        ∀ past e, past ++ [e] <+: twoSessions →
          ((sessionMachine fun c t => c == t).run {} past).Honest (fun c t => c == t) e) := by
  rintro ⟨-, h⟩
  have hadd := h (twoSessions.take 3) (.add 2 5 true) (List.prefix_refl _)
  obtain ⟨x, hx, hget⟩ := hadd.1 (by decide)
  have hlookup : x.sessid = [107] := by
    obtain rfl := Option.some.inj hx
    rfl
  rw [hlookup] at hget
  exact absurd hget (by decide)

end Kimserver
