import Kimserver.Cmd.Acks
import Kimserver.Cmd.Session

/-!
# Timeouts of commands and sessions

A pending command and a stored session each have a timer. When it expires, the handler looks at
how long the object was idle: not for long enough, and the timer is restarted for the rest of the
time; else `on_timeout` is asked, which may count the timeout by itself, and the handler counts it
where it does not. The object is deleted when it is finished, or when it was counted too often.

What `on_timeout` returns, what it leaves in `m_cur_timeout_cnt`, the clock, and whether the
connection of a command is still valid are part of an event. `process_ack` calls a command back
without `set_active_time`, unlike `handle_cmd_callback`.

## Main definitions

* `Timer`, `TimerAction`, `Timer.onTimer`: the members of `Timer`, and what the handlers do
* `sessionTimerAction`, `CmdTimers.onCmdTimer`: the two handlers
* `CmdTimers`, `cmdTimerMachine`: the commands of a worker with their timers
* `TimerSpec`: what a handler owes to one object
* `Expires`: with it, how often the object survives

## Main results

* `Timer.onTimer_idle`: an idle object is removed, or counted once more below its maximum
* `TimerSpec.expires`: an object survives fewer idle expirations than its maximum
* `timers_expire`: commands and sessions expire
-/

namespace Kimserver

/-- The members of `Timer`. -/
structure Timer (τ : Type) where
  activeTime : τ
  keepAlive : τ
  curTimeoutCnt : ℤ := 0
  maxTimeoutCnt : ℤ
  deriving DecidableEq

/-- What a handler does with the object of an expired timer: it calls `restart_timer` and leaves
a count, or deletes the object with its timer. -/
inductive TimerAction (τ : Type)
  | restart (secs : τ) (cnt : ℤ)
  | remove
  deriving DecidableEq

namespace Timer

section Handler

variable {τ : Type} [Sub τ] [Zero τ] [LT τ] [DecidableLT τ]

/-- The object was idle for at least `keep_alive`: no time is left. -/
def Idle (x : Timer τ) (now : τ) : Prop := ¬ 0 < x.keepAlive - (now - x.activeTime)

instance (x : Timer τ) (now : τ) : Decidable (x.Idle now) :=
  inferInstanceAs (Decidable (¬ _))

/-- `on_cmd_timer` and `on_session_timer`: `running` says whether `on_timeout` returns `RUNNING`,
`alive` whether the object is still wanted then, and `cnt` is what `on_timeout` leaves in
`m_cur_timeout_cnt`. The timer is restarted for `again`. -/
def onTimer (x : Timer τ) (again now : τ) (running alive : Bool) (cnt : ℤ) : TimerAction τ :=
  let secs := x.keepAlive - (now - x.activeTime)
  if 0 < secs then .restart secs x.curTimeoutCnt
  else if running = false then .remove
  else if alive = false then .remove
  else
    let cnt := if x.curTimeoutCnt = cnt then cnt + 1 else cnt
    if x.maxTimeoutCnt ≤ cnt then .remove else .restart again cnt

theorem onTimer_active {x : Timer τ} {now : τ} (h : ¬ x.Idle now) (again : τ)
    (running alive : Bool) (cnt : ℤ) :
    x.onTimer again now running alive cnt =
      .restart (x.keepAlive - (now - x.activeTime)) x.curTimeoutCnt :=
  if_pos (not_not.mp h)

theorem onTimer_stopped {x : Timer τ} {now : τ} (h : x.Idle now) (again : τ) (alive : Bool)
    (cnt : ℤ) : x.onTimer again now false alive cnt = .remove := by
  unfold onTimer
  rw [if_neg h, if_pos rfl]

theorem onTimer_running {x : Timer τ} {now : τ} (h : x.Idle now) (again : τ) (cnt : ℤ) :
    x.onTimer again now true true cnt =
      if x.maxTimeoutCnt ≤ (if x.curTimeoutCnt = cnt then cnt + 1 else cnt) then .remove
      else .restart again (if x.curTimeoutCnt = cnt then cnt + 1 else cnt) := by
  unfold onTimer
  rw [if_neg h, if_neg (by simp), if_neg (by simp)]

/-- **An idle object** whose count `on_timeout` does not lower is removed, or counted once more
below its maximum. -/
theorem onTimer_idle {x : Timer τ} {now : τ} (h : x.Idle now) (again : τ) (running alive : Bool)
    {cnt : ℤ} (hcnt : x.curTimeoutCnt ≤ cnt) :
    x.onTimer again now running alive cnt = .remove ∨
      ∃ n, x.onTimer again now running alive cnt = .restart again n ∧
        x.curTimeoutCnt < n ∧ n < x.maxTimeoutCnt := by
  unfold onTimer
  dsimp only
  rw [if_neg h]
  split_ifs with hrunning halive hsame hmax hmax
  · exact Or.inl rfl
  · exact Or.inl rfl
  · exact Or.inl rfl
  · exact Or.inr ⟨cnt + 1, rfl, by omega, by omega⟩
  · exact Or.inl rfl
  · exact Or.inr ⟨cnt, rfl, by omega, by omega⟩

end Handler

end Timer

/-! ## What a handler owes to an object -/

/-- The expiration of the timer of an object: the clock, the count that `on_timeout` leaves, and
what the handler does. -/
structure Expiry (τ : Type) where
  now : τ
  cnt : ℤ
  action : Timer τ → TimerAction τ

section Spec

variable {S E τ : Type} [Sub τ] [Zero τ] [LT τ] [DecidableLT τ]

/-- `on_timeout` does not lower the count. -/
def Steady (timer : S → Option (Timer τ)) (expiry : E → Option (Expiry τ)) (s : S) (e : E) : Prop :=
  ∀ r ∈ expiry e, ∀ x ∈ timer s, x.curTimeoutCnt ≤ r.cnt

/-- The event is an expiration that finds the object idle. -/
def idleExpiry (timer : S → Option (Timer τ)) (expiry : E → Option (Expiry τ)) (s : S) (e : E) :
    Bool :=
  match expiry e, timer s with
  | some r, some x => decide (x.Idle r.now)
  | _, _ => false

/-- What the events do to an object in a table: `timer` reads its timer as long as it is there,
`Gone` says that neither the object nor its timer is left, `expiry` picks the expirations of its
timer, and `isTimer` those of all timers. -/
structure TimerSpec (M : Machine S E) (I Gone : S → Prop) (timer : S → Option (Timer τ))
    (expiry : E → Option (Expiry τ)) (isTimer : E → Bool) : Prop where
  step : ∀ s e, I s → I (M.step s e)
  idle : ∀ {s e x r}, I s → timer s = some x → expiry e = some r → x.Idle r.now →
    x.curTimeoutCnt ≤ r.cnt →
      (r.action x = .remove ∧ Gone (M.step s e)) ∨
        ∃ secs n, r.action x = .restart secs n ∧ x.curTimeoutCnt < n ∧ n < x.maxTimeoutCnt ∧
          timer (M.step s e) = some { x with curTimeoutCnt := n }
  active : ∀ {s e x r}, I s → timer s = some x → expiry e = some r → ¬ x.Idle r.now →
    r.action x = .restart (x.keepAlive - (r.now - x.activeTime)) x.curTimeoutCnt ∧ M.step s e = s
  other : ∀ {s e x}, I s → timer s = some x → expiry e = none →
    (timer (M.step s e) = none ∧ isTimer e = false) ∨
      ∃ y, timer (M.step s e) = some y ∧ y.curTimeoutCnt = x.curTimeoutCnt ∧
        y.maxTimeoutCnt = x.maxTimeoutCnt
  gone : ∀ {s}, Gone s → timer s = none

/-- An object expires: what its handler owes to it, it survives fewer idle expirations than its
maximum, and a timer removes it only when it was idle. -/
structure Expires (M : Machine S E) (I Gone : S → Prop) (timer : S → Option (Timer τ))
    (expiry : E → Option (Expiry τ)) (isTimer : E → Bool) : Prop
    extends TimerSpec M I Gone timer expiry isTimer where
  survives : ∀ {s es x}, I s → timer s = some x → M.Meets (Steady timer expiry) s es →
    (∀ past, past <+: es → timer (M.run s past) ≠ none) →
      M.count (idleExpiry timer expiry) s es = 0 ∨
        x.curTimeoutCnt + M.count (idleExpiry timer expiry) s es < x.maxTimeoutCnt
  patient : ∀ {s e x}, I s → timer s = some x → isTimer e = true → timer (M.step s e) = none →
    ∃ r, expiry e = some r ∧ x.Idle r.now

variable {M : Machine S E} {I Gone : S → Prop} {timer : S → Option (Timer τ)}
  {expiry : E → Option (Expiry τ)} {isTimer : E → Bool}

/-- One event that leaves the object there keeps its maximum, and counts once if it is an
expiration that finds it idle. -/
theorem TimerSpec.count_step (h : TimerSpec M I Gone timer expiry isTimer) {s : S} {e : E}
    {x y : Timer τ} (hI : I s) (hx : timer s = some x) (hsteady : Steady timer expiry s e)
    (hy : timer (M.step s e) = some y) :
    y.maxTimeoutCnt = x.maxTimeoutCnt ∧
      (idleExpiry timer expiry s e = true →
        x.curTimeoutCnt < y.curTimeoutCnt ∧ y.curTimeoutCnt < x.maxTimeoutCnt) ∧
      (idleExpiry timer expiry s e = false → y.curTimeoutCnt = x.curTimeoutCnt) := by
  unfold idleExpiry
  rw [hx]
  cases hr : expiry e with
  | none =>
    obtain ⟨hnone, -⟩ | ⟨z, hz, hcur, hmax⟩ := h.other hI hx hr
    · rw [hnone] at hy
      cases hy
    · obtain rfl := Option.some.inj (hz.symm.trans hy)
      exact ⟨hmax, (by rintro ⟨⟩), fun _ => hcur⟩
  | some r =>
    by_cases hidle : x.Idle r.now
    · obtain ⟨-, hgone⟩ | ⟨secs, n, -, hlt, hbound, hz⟩ :=
        h.idle hI hx hr hidle (hsteady r hr x hx)
      · rw [h.gone hgone] at hy
        cases hy
      · obtain rfl := Option.some.inj (hz.symm.trans hy)
        exact ⟨rfl, fun _ => ⟨hlt, hbound⟩, fun hfalse => absurd hidle (of_decide_eq_false hfalse)⟩
    · rw [(h.active hI hx hr hidle).2, hx] at hy
      obtain rfl := Option.some.inj hy
      exact ⟨rfl, fun htrue => absurd (of_decide_eq_true htrue) hidle, fun _ => rfl⟩

/-- **An object expires** if its handler does what it owes to it: the count of its timeouts is
the measure. -/
theorem TimerSpec.expires (h : TimerSpec M I Gone timer expiry isTimer) :
    Expires M I Gone timer expiry isTimer := by
  refine { h with survives := ?_, patient := ?_ }
  · intro s es x hI hx hsteady hthere
    -- along the run the object is there, with the same maximum
    have hP : ∀ past, past <+: es → I (M.run s past) ∧
        ∃ y, timer (M.run s past) = some y ∧ y.maxTimeoutCnt = x.maxTimeoutCnt := by
      intro past
      induction past using List.reverseRecOn with
      | nil => exact fun _ => ⟨hI, x, hx, rfl⟩
      | append_singleton past e ih =>
        intro hp
        obtain ⟨hpast, y, hy, hmax⟩ := ih ((List.prefix_append past [e]).trans hp)
        obtain ⟨z, hz⟩ := Option.ne_none_iff_exists'.mp (hthere _ hp)
        have hsteady := Machine.Meets.iff_forall_step.mp hsteady past e hp
        rw [Machine.run_snoc] at hz ⊢
        exact ⟨h.step _ e hpast, z, hz, (h.count_step hpast hy hsteady hz).1.trans hmax⟩
    have hbound := Machine.Meets.count_add_le (C := idleExpiry timer expiry) (b := x.maxTimeoutCnt)
      (D := Steady timer expiry) (f := fun s => (timer s).elim 0 Timer.curTimeoutCnt)
      (P := fun s => I s ∧ ∃ y, timer s = some y ∧ y.maxTimeoutCnt = x.maxTimeoutCnt)
      (fun s e hs ht hD hC => by
        obtain ⟨hI, y, hy, hmax⟩ := hs
        obtain ⟨-, z, hz, -⟩ := ht
        have hcount := (h.count_step hI hy hD hz).2.1 hC
        rw [hmax] at hcount
        simp only [hy, hz, Option.elim_some]
        exact hcount)
      (fun s e hs ht hD hC => by
        obtain ⟨hI, y, hy, hmax⟩ := hs
        obtain ⟨-, z, hz, -⟩ := ht
        simp only [hy, hz, Option.elim_some]
        exact (h.count_step hI hy hD hz).2.2 hC)
      hP hsteady
    simp only [hx, Option.elim_some] at hbound
    obtain ⟨hzero, -⟩ | ⟨hle, hlt⟩ := hbound
    · exact Or.inl hzero
    · exact Or.inr (lt_of_le_of_lt hle hlt)
  · intro s e x hI hx htimer hnone
    cases hr : expiry e with
    | none =>
      obtain ⟨-, hnot⟩ | ⟨y, hy, -⟩ := h.other hI hx hr
      · rw [htimer] at hnot
        cases hnot
      · rw [hnone] at hy
        cases hy
    | some r =>
      refine ⟨r, rfl, ?_⟩
      by_contra hactive
      rw [(h.active hI hx hr hactive).2, hx] at hnone
      cases hnone

end Spec

/-! ## Sessions -/

section Sessions

variable {τ : Type}

/-- The members of `Timer` of a session. -/
def Session.toTimer (x : Session τ) : Timer τ :=
  ⟨x.activeTime, x.keepAlive, x.curTimeoutCnt, x.maxTimeoutCnt⟩

/-- What `on_session_timer` does. -/
def sessionTimerAction [Sub τ] [Zero τ] [LT τ] [DecidableLT τ] (now : τ) (status : SessionStatus)
    (cnt : ℤ) (x : Timer τ) : TimerAction τ :=
  x.onTimer x.keepAlive now (status = .running) true cnt

/-- The expirations of the timer of a session. -/
def sessionExpiry [Sub τ] [Zero τ] [LT τ] [DecidableLT τ] (s : ℕ) :
    SessionEvent τ → Option (Expiry τ)
  | .timeout s' now status cnt =>
    if s' = s then some ⟨now, cnt, sessionTimerAction now status cnt⟩ else none
  | _ => none

/-- The expirations of all timers. -/
def SessionEvent.isTimeout : SessionEvent τ → Bool
  | .timeout .. => true
  | _ => false

namespace SessionMgr

variable {derives : ℕ → ℕ → Bool} {m m' m'' : SessionMgr τ} {s : ℕ}

/-- The timer of a session that has one. -/
def timerOf (s : ℕ) (m : SessionMgr τ) : Option (Timer τ) :=
  match m.heap.lookup s with
  | none => none
  | some x => if x.armed then some x.toTimer else none

/-- The session is deleted, and its entry. -/
def Gone (s : ℕ) (m : SessionMgr τ) : Prop :=
  m.heap.lookup s = none ∧ ∀ k, m.sessions.lookup k ≠ some s

theorem timerOf_eq_some {t : Timer τ} : m.timerOf s = some t ↔
    ∃ x, m.heap.lookup s = some x ∧ x.armed = true ∧ x.toTimer = t := by
  unfold timerOf
  cases m.heap.lookup s with
  | none => simp
  | some x =>
    dsimp only
    split_ifs with harmed <;> simp [harmed]

theorem Gone.timerOf (h : m.Gone s) : m.timerOf s = none := by
  unfold SessionMgr.timerOf
  rw [h.1]

theorem write_lookup (m : SessionMgr τ) (s s' : ℕ) (x : Session τ) :
    (m.write s x).heap.lookup s' = if s' = s then some x else m.heap.lookup s' :=
  FiniteMap.lookup_insert _ _ _ _

/-- The session is there afterwards, with its counts and its timer. -/
def Kept (s : ℕ) (m m' : SessionMgr τ) : Prop :=
  ∀ x, m.heap.lookup s = some x → ∃ y, m'.heap.lookup s = some y ∧
    y.curTimeoutCnt = x.curTimeoutCnt ∧ y.maxTimeoutCnt = x.maxTimeoutCnt ∧
      (x.armed = true → y.armed = true)

theorem Kept.refl : Kept s m m := fun x hx => ⟨x, hx, rfl, rfl, id⟩

theorem Kept.trans (h : Kept s m m') (h' : Kept s m' m'') : Kept s m m'' := by
  intro x hx
  obtain ⟨y, hy, hcur, hmax, harmed⟩ := h x hx
  obtain ⟨z, hz, hcur', hmax', harmed'⟩ := h' y hy
  exact ⟨z, hz, hcur'.trans hcur, hmax'.trans hmax, harmed' ∘ harmed⟩

/-- A write that keeps the counts and the timer of its session. -/
theorem Kept.write {s' : ℕ} {x' y' : Session τ} (hx' : m.heap.lookup s' = some x')
    (hcur : y'.curTimeoutCnt = x'.curTimeoutCnt) (hmax : y'.maxTimeoutCnt = x'.maxTimeoutCnt)
    (harmed : x'.armed = true → y'.armed = true) : Kept s m (m.write s' y') := by
  intro x hx
  rw [write_lookup]
  split_ifs with heq
  · subst heq
    obtain rfl := Option.some.inj (hx.symm.trans hx')
    exact ⟨y', rfl, hcur, hmax, harmed⟩
  · exact ⟨x, hx, rfl, rfl, id⟩

theorem Kept.getSession (sessid : Bytes) (reActive : Bool) (now : τ) :
    Kept s m (m.getSession sessid reActive now).2 := by
  obtain heq | ⟨s', x, hx, heq⟩ := m.getSession_snd sessid reActive now
  · rw [heq]
    exact Kept.refl
  · rw [heq]
    exact Kept.write hx rfl rfl id

theorem Kept.addSession (s' : ℕ) (now : τ) (timer : Bool) :
    Kept s m (m.addSession s' now timer).2 := by
  obtain ⟨-, heq⟩ | ⟨x, hx, ⟨-, -, heq⟩ | ⟨-, heq | heq⟩⟩ := m.addSession_cases s' now timer
  · rw [heq]
    exact Kept.refl
  · rw [heq]
    exact Kept.write hx rfl rfl id
  · rw [heq]
    exact Kept.write hx rfl rfl fun _ => rfl
  · rw [heq]
    exact Kept.refl

/-- A session that is made has another address. -/
theorem Kept.newSession {s' : ℕ} (hs' : m.heap.lookup s' = none) (cls : ℕ) (sessid : Bytes)
    (secs now : τ) : Kept s m (m.newSession s' cls sessid secs now) := by
  intro x hx
  refine ⟨x, ?_, rfl, rfl, id⟩
  unfold SessionMgr.newSession
  rw [write_lookup, if_neg, hx]
  rintro rfl
  rw [hs'] at hx
  cases hx

theorem Kept.getAllocSession (t : ℕ) {s' : ℕ} (hs' : m.heap.lookup s' = none) (sessid : Bytes)
    (secs : τ) (reActive : Bool) (now : τ) (timer : Bool) :
    Kept s m (m.getAllocSession derives t s' sessid secs reActive now timer).2 := by
  have hfound : Kept s m (m.getSession sessid reActive now).2 := Kept.getSession sessid reActive now
  obtain ⟨s'', -, heq⟩ | ⟨-, r, hr, heq⟩ :=
    m.getAllocSession_cases derives t s' sessid secs reActive now timer
  · rw [heq]
    exact hfound
  · have hfree := getSession_lookup_eq_none sessid reActive now hs'
    have hadded : Kept s m r.2 := by
      rw [← hr]
      have hmade := hfound.trans (Kept.newSession hfree t sessid secs now)
      exact hmade.trans (Kept.addSession s' now timer)
    rw [heq]
    split_ifs
    · exact hadded
    · -- the address that is freed was free before
      intro x hx
      obtain ⟨y, hy, hrest⟩ := hadded x hx
      refine ⟨y, ?_, hrest⟩
      rw [FiniteMap.lookup_erase, if_neg, hy]
      rintro rfl
      rw [hs'] at hx
      cases hx

/-- `del_session` erases the session that is stored under the key. -/
theorem delSession_lookup (m : SessionMgr τ) (k : Bytes) (s : ℕ) :
    (m.delSession k).2.heap.lookup s =
      if m.sessions.lookup k = some s then none else m.heap.lookup s := by
  unfold delSession
  cases hk : m.sessions.lookup k with
  | none => rfl
  | some s' =>
    dsimp only
    rw [FiniteMap.lookup_erase]
    by_cases heq : s = s'
    · rw [if_pos heq, if_pos (by rw [heq])]
    · rw [if_neg heq, if_neg fun h => heq (Option.some.inj h).symm]

section Timer

variable [Sub τ] [Zero τ] [LT τ] [DecidableLT τ]

/-- **`on_session_timer`** of a session with a timer. -/
theorem Coincide.onSessionTimer_eq (h : m.Coincide) {x : Session τ}
    (hx : m.heap.lookup s = some x) (harmed : x.armed = true) (now : τ) (status : SessionStatus)
    (cnt : ℤ) :
    m.onSessionTimer s now status cnt =
      match sessionTimerAction now status cnt x.toTimer with
      | .restart _ n => m.write s { x with curTimeoutCnt := n }
      | .remove => { heap := m.heap.erase s, sessions := m.sessions.erase x.sessid } := by
  -- the session is found under its key, and what was written to it does not matter
  have hdel : ∀ y : Session τ, ((m.write s y).delSession x.sessid).2 =
      { heap := m.heap.erase s, sessions := m.sessions.erase x.sessid } := by
    intro y
    have hkey : (m.write s y).sessions.lookup x.sessid = some s := h.armed hx harmed
    unfold SessionMgr.delSession
    rw [hkey]
    dsimp only
    rw [SessionMgr.write, FiniteMap.erase_insert_self]
  have hself : m.write s { x with curTimeoutCnt := x.curTimeoutCnt } = m := by
    rw [SessionMgr.write, FiniteMap.insert_lookup hx]
  have htwice : ∀ y z : Session τ, (m.write s y).write s z = m.write s z := by
    intro y z
    simp only [SessionMgr.write, FiniteMap.insert_insert]
  unfold SessionMgr.onSessionTimer
  rw [hx]
  dsimp only
  by_cases hidle : x.toTimer.Idle now
  · have hsecs : ¬ 0 < x.keepAlive - (now - x.activeTime) := hidle
    rw [if_neg hsecs]
    by_cases hrunning : status = .running
    · have haction := Timer.onTimer_running hidle x.keepAlive cnt
      have hsame : sessionTimerAction now status cnt x.toTimer =
          x.toTimer.onTimer x.keepAlive now true true cnt := by
        rw [sessionTimerAction, decide_eq_true hrunning]
        rfl
      have hcur : x.toTimer.curTimeoutCnt = x.curTimeoutCnt := rfl
      have hmaxcnt : x.toTimer.maxTimeoutCnt = x.maxTimeoutCnt := rfl
      rw [hsame, haction, if_neg (not_not.mpr hrunning), htwice, hcur, hmaxcnt]
      by_cases hcounted : x.curTimeoutCnt = cnt
      · simp only [if_pos hcounted]
        split_ifs
        · exact hdel _
        · rfl
      · simp only [if_neg hcounted]
        split_ifs
        · exact hdel _
        · rfl
    · have haction : sessionTimerAction now status cnt x.toTimer = .remove := by
        rw [sessionTimerAction, decide_eq_false hrunning]
        exact Timer.onTimer_stopped hidle _ _ _
      rw [haction, if_pos hrunning]
      exact hdel _
  · have haction : sessionTimerAction now status cnt x.toTimer =
        .restart (x.keepAlive - (now - x.activeTime)) x.curTimeoutCnt :=
      Timer.onTimer_active hidle x.keepAlive (decide (status = .running)) true cnt
    have hsecs : 0 < x.keepAlive - (now - x.activeTime) := not_not.mp hidle
    rw [if_pos hsecs, haction]
    exact hself.symm

/-- The handler of another session leaves the session alone. -/
theorem Coincide.onSessionTimer_lookup_ne (h : m.Coincide) {s' : ℕ} (hne : s ≠ s')
    (harmed : m.isArmed s' = true) (now : τ) (status : SessionStatus) (cnt : ℤ) :
    (m.onSessionTimer s' now status cnt).heap.lookup s = m.heap.lookup s := by
  unfold isArmed at harmed
  cases hx' : m.heap.lookup s' with
  | none =>
    rw [hx'] at harmed
    cases harmed
  | some x' =>
    rw [hx'] at harmed
    rw [h.onSessionTimer_eq hx' harmed]
    split
    · rw [write_lookup, if_neg hne]
    · rw [FiniteMap.lookup_erase, if_neg hne]

/-- What an event other than the expiration of its timer does to a session with a timer. -/
theorem Coincide.step_other (h : m.Coincide) {t : Timer τ} (ht : m.timerOf s = some t)
    {e : SessionEvent τ} (he : sessionExpiry s e = none) :
    ((m.step derives e).timerOf s = none ∧ e.isTimeout = false) ∨
      ∃ u, (m.step derives e).timerOf s = some u ∧ u.curTimeoutCnt = t.curTimeoutCnt ∧
        u.maxTimeoutCnt = t.maxTimeoutCnt := by
  obtain ⟨x, hx, harmed, rfl⟩ := timerOf_eq_some.mp ht
  -- a session that is kept keeps its timer
  have hkept : ∀ {m' : SessionMgr τ}, Kept s m m' → ∃ u, m'.timerOf s = some u ∧
      u.curTimeoutCnt = x.toTimer.curTimeoutCnt ∧ u.maxTimeoutCnt = x.toTimer.maxTimeoutCnt := by
    intro m' hm'
    obtain ⟨y, hy, hcur, hmax, hstill⟩ := hm' x hx
    exact ⟨y.toTimer, timerOf_eq_some.mpr ⟨y, hy, hstill harmed, rfl⟩, hcur, hmax⟩
  cases e with
  | create s' cls sessid secs now =>
    refine Or.inr (hkept ?_)
    simp only [SessionMgr.step]
    split_ifs with hs'
    · exact Kept.refl
    · exact Kept.newSession (Option.not_isSome_iff_eq_none.mp hs') cls sessid secs now
  | add s' now timer => exact Or.inr (hkept (Kept.addSession s' now timer))
  | get sessid reActive now => exact Or.inr (hkept (Kept.getSession sessid reActive now))
  | del sessid =>
    have hlookup := m.delSession_lookup sessid s
    change ((m.delSession sessid).2.timerOf s = none ∧ _) ∨
      ∃ u, (m.delSession sessid).2.timerOf s = some u ∧ _
    by_cases hdel : m.sessions.lookup sessid = some s
    · rw [if_pos hdel] at hlookup
      left
      unfold timerOf
      rw [hlookup]
      exact ⟨rfl, rfl⟩
    · rw [if_neg hdel] at hlookup
      refine Or.inr (hkept fun y hy => ⟨y, hlookup.trans hy, rfl, rfl, id⟩)
  | timeout s' now status cnt =>
    have hne : s' ≠ s := by
      intro heq
      rw [sessionExpiry, if_pos heq] at he
      cases he
    refine Or.inr (hkept ?_)
    simp only [SessionMgr.step]
    split_ifs with harmed'
    · intro y hy
      rw [h.onSessionTimer_lookup_ne hne.symm harmed']
      exact ⟨y, hy, rfl, rfl, id⟩
    · exact Kept.refl
  | getAlloc t s' sessid secs reActive now timer =>
    refine Or.inr (hkept ?_)
    simp only [SessionMgr.step]
    split_ifs with hs'
    · exact Kept.refl
    · exact Kept.getAllocSession t (Option.not_isSome_iff_eq_none.mp hs') sessid secs reActive now
        timer

/-- The expiration of the timer of a session. -/
theorem Coincide.step_timeout (h : m.Coincide) {x : Session τ} (hx : m.heap.lookup s = some x)
    (harmed : x.armed = true) (now : τ) (status : SessionStatus) (cnt : ℤ) :
    m.step derives (.timeout s now status cnt) =
      match sessionTimerAction now status cnt x.toTimer with
      | .restart _ n => m.write s { x with curTimeoutCnt := n }
      | .remove => { heap := m.heap.erase s, sessions := m.sessions.erase x.sessid } := by
  have his : m.isArmed s = true := by
    rw [isArmed, hx]
    exact harmed
  rw [← h.onSessionTimer_eq hx harmed]
  simp only [SessionMgr.step, his, if_true]

/-- **Sessions**: what `on_session_timer` owes to each of them. -/
theorem timerSpec (derives : ℕ → ℕ → Bool) (s : ℕ) :
    TimerSpec (sessionMachine (τ := τ) derives) Coincide (Gone s) (timerOf s) (sessionExpiry s)
      SessionEvent.isTimeout := by
  -- an expiration is the event of a timeout
  have hevent : ∀ {e : SessionEvent τ} {r : Expiry τ}, sessionExpiry s e = some r →
      ∃ now status cnt, e = .timeout s now status cnt ∧
        r = ⟨now, cnt, sessionTimerAction now status cnt⟩ := by
    intro e r hr
    cases e with
    | timeout s' now status cnt =>
      unfold sessionExpiry at hr
      dsimp only at hr
      split_ifs at hr with heq
      subst heq
      exact ⟨now, status, cnt, rfl, (Option.some.inj hr).symm⟩
    | _ => cases hr
  constructor
  · exact fun m e h => h.step e
  · intro m e t r h ht hr hidle hcnt
    obtain ⟨x, hx, harmed, rfl⟩ := timerOf_eq_some.mp ht
    obtain ⟨now, status, cnt, rfl, rfl⟩ := hevent hr
    have hstep : m.step derives (.timeout s now status cnt) = _ :=
      h.step_timeout hx harmed now status cnt
    change (_ ∧ Gone s (m.step derives _)) ∨ ∃ secs n, _ ∧ _ ∧ _ ∧ timerOf s (m.step derives _) = _
    rw [hstep]
    rcases Timer.onTimer_idle hidle x.toTimer.keepAlive (decide (status = .running)) true hcnt with
      hremove | ⟨n, hrestart, hlt, hmax⟩
    · refine Or.inl ⟨hremove, ?_⟩
      rw [show sessionTimerAction now status cnt x.toTimer = .remove from hremove]
      refine ⟨by rw [FiniteMap.lookup_erase, if_pos rfl], fun k hk => ?_⟩
      rw [FiniteMap.lookup_erase] at hk
      split_ifs at hk with hkey
      obtain ⟨y, hy, -, hkey'⟩ := h.stored hk
      obtain rfl := Option.some.inj (hx.symm.trans hy)
      exact hkey hkey'.symm
    · refine Or.inr ⟨_, n, hrestart, hlt, hmax, ?_⟩
      rw [show sessionTimerAction now status cnt x.toTimer = .restart _ n from hrestart]
      refine timerOf_eq_some.mpr ⟨{ x with curTimeoutCnt := n }, ?_, harmed, rfl⟩
      rw [write_lookup, if_pos rfl]
  · intro m e t r h ht hr hactive
    obtain ⟨x, hx, harmed, rfl⟩ := timerOf_eq_some.mp ht
    obtain ⟨now, status, cnt, rfl, rfl⟩ := hevent hr
    have haction := Timer.onTimer_active hactive x.toTimer.keepAlive (decide (status = .running))
      true cnt
    refine ⟨haction, ?_⟩
    change m.step derives (.timeout s now status cnt) = m
    rw [h.step_timeout hx harmed, show sessionTimerAction now status cnt x.toTimer = _ from haction]
    change m.write s { x with curTimeoutCnt := x.curTimeoutCnt } = m
    rw [SessionMgr.write, FiniteMap.insert_lookup hx]
  · exact fun h ht he => h.step_other ht he
  · exact fun h => h.timerOf

end Timer

end SessionMgr

end Sessions

/-! ## Pending commands -/

namespace CmdTable

variable {s : CmdTable}

theorem Stored.isPending_iff (h : s.Stored) {c : ℕ} :
    s.isPending c = true ↔ ∃ id, s.cmds.lookup id = some c := by
  unfold isPending
  constructor
  · cases hc : s.objs[c]? with
    | none => rintro ⟨⟩
    | some id => exact fun hlookup => ⟨id, of_decide_eq_true hlookup⟩
  · rintro ⟨id, hlookup⟩
    rw [h.key hlookup]
    exact decide_eq_true hlookup

/-- The deletion of a pending command. -/
theorem Stored.delCmd_isPending (h : s.Stored) {c : ℕ} (hc : s.isPending c = true) (c' : ℕ) :
    (s.delCmd c).isPending c' = true ↔ c' ≠ c ∧ s.isPending c' = true := by
  rw [(h.delCmd c).isPending_iff, h.isPending_iff]
  obtain ⟨id, hid⟩ := h.isPending_iff.mp hc
  have hcmds : (s.delCmd c).cmds = s.cmds.erase id := by
    unfold CmdTable.delCmd
    rw [h.key hid]
  rw [hcmds]
  constructor
  · rintro ⟨id', hid'⟩
    rw [FiniteMap.lookup_erase] at hid'
    split_ifs at hid' with hne
    refine ⟨?_, id', hid'⟩
    rintro rfl
    exact hne (Option.some.inj ((h.key hid').symm.trans (h.key hid)))
  · rintro ⟨hne, id', hid'⟩
    refine ⟨id', ?_⟩
    rw [FiniteMap.lookup_erase, if_neg, hid']
    rintro rfl
    exact hne (Option.some.inj (hid'.symm.trans hid))

/-- A new command gets an entry under a number that is free, or none. -/
theorem handleCmd_cmds (s : CmdTable) (req : Message) (sends running timer : Bool) :
    (s.handleCmd req sends running timer).cmds = s.cmds ∨
      ∃ id, s.cmds.lookup id = none ∧
        (s.handleCmd req sends running timer).cmds = s.cmds.insert id s.objs.length := by
  -- the table when the command was executed
  obtain ⟨t, ht⟩ : ∃ t, t = (if sends then
      CmdTable.sendRequest { s.newSeq with objs := s.newSeq.objs ++ [s.newSeq.seq] }
        s.newSeq.objs.length req
      else { s.newSeq with objs := s.newSeq.objs ++ [s.newSeq.seq] }) := ⟨_, rfl⟩
  have hcmds : t.cmds = s.cmds := by
    rw [ht]
    split_ifs
    · unfold sendRequest
      split <;> rfl
    · rfl
  have hobj : t.objs[s.objs.length]? = some s.newSeq.seq := by
    rw [ht]
    split_ifs
    · rw [sendRequest_objs]
      exact List.getElem?_concat_length
    · exact List.getElem?_concat_length
  unfold CmdTable.handleCmd
  dsimp only
  rw [← ht]
  cases running with
  | false => exact Or.inl hcmds
  | true =>
    rw [if_pos rfl]
    unfold addCmd
    rw [hcmds]
    by_cases htaken : (s.cmds.lookup s.newSeq.seq).isSome
    · rw [if_pos htaken]
      exact Or.inl hcmds
    · rw [if_neg htaken]
      have hfree := Option.not_isSome_iff_eq_none.mp htaken
      cases timer with
      | true => exact Or.inr ⟨s.newSeq.seq, hfree, rfl⟩
      | false =>
        -- the timer could not be set, and the entry is erased again
        left
        have hnew : s.newSeq.objs.length = s.objs.length := rfl
        dsimp only
        rw [if_neg (by simp), CmdTable.delCmd, hnew, hobj]
        change (s.cmds.insert s.newSeq.seq _).erase s.newSeq.seq = s.cmds
        refine Finmap.ext_lookup fun x => ?_
        rw [FiniteMap.lookup_erase, FiniteMap.lookup_insert]
        split_ifs with hx
        · rw [hx, hfree]
        · rfl

/-- A new command leaves the others pending or not. -/
theorem Stored.handleCmd_isPending (h : s.Stored) (req : Message) (sends running timer : Bool)
    {c : ℕ} (hc : c ≠ s.objs.length) :
    (s.handleCmd req sends running timer).isPending c = s.isPending c := by
  rw [Bool.eq_iff_iff, (h.handleCmd req sends running timer).isPending_iff, h.isPending_iff]
  rcases s.handleCmd_cmds req sends running timer with heq | ⟨id, hfree, heq⟩
  · rw [heq]
  · rw [heq]
    constructor
    · rintro ⟨id', hid'⟩
      rw [FiniteMap.lookup_insert] at hid'
      split_ifs at hid'
      · exact absurd (Option.some.inj hid').symm hc
      · exact ⟨id', hid'⟩
    · rintro ⟨id', hid'⟩
      refine ⟨id', ?_⟩
      rw [FiniteMap.lookup_insert, if_neg, hid']
      rintro rfl
      rw [hfree] at hid'
      cases hid'

/-- A pending command was made before. -/
theorem Stored.lt_of_isPending (h : s.Stored) {c : ℕ} (hc : s.isPending c = true) :
    c < s.objs.length := by
  obtain ⟨id, hid⟩ := h.isPending_iff.mp hc
  exact (List.getElem?_eq_some_iff.mp (h.key hid)).1

end CmdTable

/-! ## Commands -/

/-- `CMD_MAX_TIMEOUT_CNT`. -/
def cmdMaxTimeoutCnt : ℤ := 3

/-- `Cmd::on_timeout`: what it returns, and what it leaves in `m_cur_timeout_cnt`. -/
def Timer.cmdOnTimeout {τ : Type} (x : Timer τ) : CmdStatus × ℤ :=
  let cnt := x.curTimeoutCnt + 1
  if cnt < x.maxTimeoutCnt then (.running, cnt) else (.error, cnt)

/-- The commands of a worker, and the timers of those that exist and have one. -/
structure CmdTimers (τ : Type) where
  table : CmdTable := {}
  timers : FiniteMap ℕ (Timer τ) := ∅

/-- What happens to the commands of a worker. -/
inductive CmdTimerEvent (τ : Type)
  /-- a number is given to something else -/
  | newSeq
  /-- a command is made at a time, with the times and the maximum of its class -/
  | request (req : Message) (sends running timer : Bool) (now keepAlive : τ) (maxTimeoutCnt : ℤ)
  | send (c : ℕ) (req : Message)
  /-- `handle_cmd_callback` for an answer of a database -/
  | callback (id : ℕ) (now : τ) (running : Bool)
  /-- `process_ack` -/
  | ack (ack : Message) (running : Bool)
  /-- the timer of a command expires -/
  | expire (c : ℕ) (now : τ) (status : CmdStatus) (cnt : ℤ) (conn : Bool)

/-- The expirations of all timers. -/
def CmdTimerEvent.isExpire {τ : Type} : CmdTimerEvent τ → Bool
  | .expire .. => true
  | _ => false

namespace CmdTimers

section Functions

variable {τ : Type} (s : CmdTimers τ)

/-- The members of a timer are written. -/
def write (c : ℕ) (x : Timer τ) : CmdTimers τ := { s with timers := s.timers.insert c x }

/-- `del_cmd`: the entry is erased, the timer stopped, and the command deleted. -/
def delCmd (c : ℕ) : CmdTimers τ := { table := s.table.delCmd c, timers := s.timers.erase c }

/-- `HANDLE_CMD` and `execute_cmd`: a command that waits gets a timer. -/
def handleCmd (req : Message) (sends running timer : Bool) (x : Timer τ) : CmdTimers τ :=
  let c := s.table.objs.length
  let table := s.table.handleCmd req sends running timer
  { table, timers := if table.isPending c then s.timers.insert c x else s.timers }

/-- `handle_cmd_callback`. -/
def handleCmdCallback (id : ℕ) (now : τ) (running : Bool) : CmdTimers τ :=
  match s.table.getCmd id with
  | none => s
  | some c =>
    match s.timers.lookup c with
    | none => s
    | some x =>
      let s := s.write c { x with activeTime := now }
      if running then s else s.delCmd c

/-- `process_ack`. -/
def processAck (ack : Message) (running : Bool) : CmdTimers τ :=
  match s.table.processAck ack running with
  | (none, table) => { s with table }
  | (some c, table) => { table, timers := if running then s.timers else s.timers.erase c }

variable [Sub τ] [Zero τ] [LT τ] [DecidableLT τ]

/-- What `on_cmd_timer` does; `conn` says whether the connection of the request is still there
and valid, and `again` is `CMD_TIMEOUT_VAL`. -/
def timerAction (again now : τ) (status : CmdStatus) (cnt : ℤ) (conn : Bool) (x : Timer τ) :
    TimerAction τ :=
  x.onTimer again now (status = .running) conn cnt

/-- `on_cmd_timer`. -/
def onCmdTimer (again : τ) (c : ℕ) (now : τ) (status : CmdStatus) (cnt : ℤ) (conn : Bool) :
    CmdTimers τ :=
  match s.timers.lookup c with
  | none => s
  | some x =>
    match timerAction again now status cnt conn x with
    | .restart _ n => s.write c { x with curTimeoutCnt := n }
    | .remove => s.delCmd c

/-- One event. -/
def step (again : τ) : CmdTimerEvent τ → CmdTimers τ
  | .newSeq => { s with table := s.table.newSeq }
  | .request req sends running timer now keepAlive maxTimeoutCnt =>
    s.handleCmd req sends running timer { activeTime := now, keepAlive, maxTimeoutCnt }
  | .send c req => if s.table.isPending c then { s with table := s.table.sendRequest c req } else s
  | .callback id now running => s.handleCmdCallback id now running
  | .ack ack running => s.processAck ack running
  | .expire c now status cnt conn => s.onCmdTimer again c now status cnt conn

end Functions

end CmdTimers

section Commands

variable {τ : Type} [Sub τ] [Zero τ] [LT τ] [DecidableLT τ]

/-- The runs of the commands of a worker. -/
def cmdTimerMachine (again : τ) : Machine (CmdTimers τ) (CmdTimerEvent τ) :=
  ⟨fun s e => s.step again e⟩

/-- The expirations of the timer of a command. -/
def cmdExpiry (again : τ) (c : ℕ) : CmdTimerEvent τ → Option (Expiry τ)
  | .expire c' now status cnt conn =>
    if c' = c then some ⟨now, cnt, CmdTimers.timerAction again now status cnt conn⟩ else none
  | _ => none

end Commands

namespace CmdTimers

variable {τ : Type} {s : CmdTimers τ}

/-- The commands with a timer are those that are pending. -/
structure Timed (s : CmdTimers τ) : Prop where
  stored : s.table.Stored
  pending : ∀ c, (s.timers.lookup c).isSome = s.table.isPending c

/-- The timer of a command that has one. -/
def timerOf (c : ℕ) (s : CmdTimers τ) : Option (Timer τ) := s.timers.lookup c

/-- The command is in no entry, and has no timer. -/
def Gone (c : ℕ) (s : CmdTimers τ) : Prop :=
  s.timers.lookup c = none ∧ ∀ id, s.table.cmds.lookup id ≠ some c

theorem timed_empty : Timed ({} : CmdTimers τ) where
  stored := CmdTable.stored_empty
  pending c := by simp [CmdTable.isPending]

theorem Timed.isPending (h : s.Timed) {c : ℕ} {x : Timer τ} (hx : s.timers.lookup c = some x) :
    s.table.isPending c = true := by
  rw [← h.pending, hx, Option.isSome_some]

theorem Timed.write (h : s.Timed) {c : ℕ} {x : Timer τ} (hx : s.timers.lookup c = some x)
    (y : Timer τ) : (s.write c y).Timed where
  stored := h.stored
  pending c' := by
    change ((s.timers.insert c y).lookup c').isSome = _
    rw [FiniteMap.lookup_insert]
    split_ifs with heq
    · rw [heq, Option.isSome_some]
      exact (h.isPending hx).symm
    · exact h.pending c'

theorem Timed.delCmd (h : s.Timed) {c : ℕ} (hc : s.table.isPending c = true) :
    (s.delCmd c).Timed where
  stored := h.stored.delCmd c
  pending c' := by
    change ((s.timers.erase c).lookup c').isSome = (s.table.delCmd c).isPending c'
    rw [FiniteMap.lookup_erase, Bool.eq_iff_iff, h.stored.delCmd_isPending hc, ← h.pending]
    split_ifs with heq
    · simp [heq]
    · simp [heq]

/-- A deleted command is gone. -/
theorem Timed.delCmd_gone (h : s.Timed) {c : ℕ} (hc : s.table.isPending c = true) :
    (s.delCmd c).Gone c := by
  refine ⟨by rw [CmdTimers.delCmd, FiniteMap.lookup_erase, if_pos rfl], fun id hid => ?_⟩
  have hpending := (h.delCmd hc).stored.isPending_iff.mpr ⟨id, hid⟩
  exact ((h.stored.delCmd_isPending hc c).mp hpending).1 rfl

theorem Timed.handleCmd (h : s.Timed) (req : Message) (sends running timer : Bool) (x : Timer τ) :
    (s.handleCmd req sends running timer x).Timed where
  stored := h.stored.handleCmd req sends running timer
  pending c := by
    unfold CmdTimers.handleCmd
    dsimp only
    by_cases hc : c = s.table.objs.length
    · subst hc
      split_ifs with hnew
      · rw [FiniteMap.lookup_insert, if_pos rfl, hnew, Option.isSome_some]
      · -- the new number had no timer
        have hnone : s.table.isPending s.table.objs.length = false := by
          rw [Bool.eq_false_iff]
          exact fun hp => lt_irrefl _ (h.stored.lt_of_isPending hp)
        rw [h.pending, hnone, Bool.eq_false_iff.mpr hnew]
    · rw [h.stored.handleCmd_isPending req sends running timer hc, ← h.pending]
      split_ifs
      · rw [FiniteMap.lookup_insert, if_neg hc]
      · rfl

/-- The command that `process_ack` calls back is pending. -/
theorem Timed.processAck_cases (h : s.Timed) (ack : Message) (running : Bool) :
    s.processAck ack running = s ∨
      ∃ c, s.table.isPending c = true ∧ running = false ∧ s.processAck ack running = s.delCmd c := by
  unfold CmdTimers.processAck CmdTable.processAck CmdTable.getCmd
  cases hget : s.table.cmds.lookup ack.1.seq.toNat with
  | none => exact Or.inl rfl
  | some c =>
    cases running with
    | true => exact Or.inl rfl
    | false => exact Or.inr ⟨c, h.stored.isPending_iff.mpr ⟨_, hget⟩, rfl, rfl⟩

/-- The command that `handle_cmd_callback` calls back is pending. -/
theorem Timed.handleCmdCallback_cases (h : s.Timed) (id : ℕ) (now : τ) (running : Bool) :
    s.handleCmdCallback id now running = s ∨
      ∃ c x, s.timers.lookup c = some x ∧ s.table.isPending c = true ∧
        (s.handleCmdCallback id now running = s.write c { x with activeTime := now } ∨
          s.handleCmdCallback id now running =
            (s.write c { x with activeTime := now }).delCmd c) := by
  unfold CmdTimers.handleCmdCallback CmdTable.getCmd
  cases hget : s.table.cmds.lookup id with
  | none => exact Or.inl rfl
  | some c =>
    dsimp only
    cases hx : s.timers.lookup c with
    | none => exact Or.inl rfl
    | some x =>
      refine Or.inr ⟨c, x, hx, h.isPending hx, ?_⟩
      cases running with
      | true => exact Or.inl rfl
      | false => exact Or.inr rfl

section Machine

variable [Sub τ] [Zero τ] [LT τ] [DecidableLT τ] {again : τ}

/-- What `on_cmd_timer` does to a command with a timer. -/
theorem onCmdTimer_eq {c : ℕ} {x : Timer τ} (hx : s.timers.lookup c = some x) (again now : τ)
    (status : CmdStatus) (cnt : ℤ) (conn : Bool) :
    s.onCmdTimer again c now status cnt conn =
      match timerAction again now status cnt conn x with
      | .restart _ n => s.write c { x with curTimeoutCnt := n }
      | .remove => s.delCmd c := by
  unfold onCmdTimer
  rw [hx]

theorem Timed.onCmdTimer (h : s.Timed) (again : τ) (c : ℕ) (now : τ) (status : CmdStatus) (cnt : ℤ)
    (conn : Bool) : (s.onCmdTimer again c now status cnt conn).Timed := by
  cases hx : s.timers.lookup c with
  | none =>
    unfold CmdTimers.onCmdTimer
    rw [hx]
    exact h
  | some x =>
    rw [onCmdTimer_eq hx]
    split
    · exact h.write hx _
    · exact h.delCmd (h.isPending hx)

/-- **Every event** keeps the timers with the pending commands. -/
theorem Timed.step (h : s.Timed) (again : τ) (e : CmdTimerEvent τ) : (s.step again e).Timed := by
  cases e with
  | newSeq => exact ⟨h.stored.newSeq, h.pending⟩
  | request req sends running timer now keepAlive maxTimeoutCnt => exact h.handleCmd ..
  | send c req =>
    simp only [CmdTimers.step]
    split_ifs
    · refine ⟨h.stored.sendRequest c req, fun c' => ?_⟩
      rw [h.pending]
      unfold CmdTable.sendRequest
      split <;> rfl
    · exact h
  | callback id now running =>
    simp only [CmdTimers.step]
    obtain heq | ⟨c, x, hx, hc, heq | heq⟩ := h.handleCmdCallback_cases id now running
    · rw [heq]
      exact h
    · rw [heq]
      exact h.write hx _
    · rw [heq]
      exact (h.write hx _).delCmd hc
  | ack ack running =>
    simp only [CmdTimers.step]
    obtain heq | ⟨c, hc, -, heq⟩ := h.processAck_cases ack running
    · rw [heq]
      exact h
    · rw [heq]
      exact h.delCmd hc
  | expire c now status cnt conn => exact h.onCmdTimer ..

/-- What an event other than the expiration of its timer does to a pending command. -/
theorem Timed.step_other (h : s.Timed) {c : ℕ} {x : Timer τ} (hx : s.timerOf c = some x)
    {e : CmdTimerEvent τ} (he : cmdExpiry again c e = none) :
    ((s.step again e).timerOf c = none ∧ e.isExpire = false) ∨
      ∃ y, (s.step again e).timerOf c = some y ∧ y.curTimeoutCnt = x.curTimeoutCnt ∧
        y.maxTimeoutCnt = x.maxTimeoutCnt := by
  -- a command whose timer is written keeps its counts
  have hwrite : ∀ {c' : ℕ} {x' y' : Timer τ}, s.timers.lookup c' = some x' →
      y'.curTimeoutCnt = x'.curTimeoutCnt → y'.maxTimeoutCnt = x'.maxTimeoutCnt →
        ∃ y, (s.write c' y').timerOf c = some y ∧ y.curTimeoutCnt = x.curTimeoutCnt ∧
          y.maxTimeoutCnt = x.maxTimeoutCnt := by
    intro c' x' y' hx' hcur hmax
    change ∃ y, (s.timers.insert c' y').lookup c = some y ∧ _
    rw [FiniteMap.lookup_insert]
    split_ifs with heq
    · subst heq
      obtain rfl := Option.some.inj (hx.symm.trans hx')
      exact ⟨y', rfl, hcur, hmax⟩
    · exact ⟨x, hx, rfl, rfl⟩
  -- a deletion leaves the timers of the other commands
  have hdel : ∀ (t : CmdTimers τ) (c' : ℕ),
      (t.delCmd c').timerOf c = none ∨ (t.delCmd c').timerOf c = t.timerOf c := by
    intro t c'
    change (t.timers.erase c').lookup c = none ∨ (t.timers.erase c').lookup c = _
    rw [FiniteMap.lookup_erase]
    split_ifs
    · exact Or.inl rfl
    · exact Or.inr rfl
  cases e with
  | newSeq => exact Or.inr ⟨x, hx, rfl, rfl⟩
  | request req sends running timer now keepAlive maxTimeoutCnt =>
    refine Or.inr ⟨x, ?_, rfl, rfl⟩
    have hne : c ≠ s.table.objs.length := (h.stored.lt_of_isPending (h.isPending hx)).ne
    change (CmdTimers.handleCmd s req sends running timer _).timers.lookup c = some x
    unfold CmdTimers.handleCmd
    dsimp only
    split_ifs
    · rw [FiniteMap.lookup_insert, if_neg hne]
      exact hx
    · exact hx
  | send c' req =>
    refine Or.inr ⟨x, ?_, rfl, rfl⟩
    simp only [CmdTimers.step]
    split_ifs <;> exact hx
  | callback id now running =>
    simp only [CmdTimers.step]
    obtain heq | ⟨c', x', hx', hc', heq | heq⟩ := h.handleCmdCallback_cases id now running
    · rw [heq]
      exact Or.inr ⟨x, hx, rfl, rfl⟩
    · rw [heq]
      exact Or.inr (hwrite hx' rfl rfl)
    · rw [heq]
      rcases hdel (s.write c' { x' with activeTime := now }) c' with hnone | hsame
      · exact Or.inl ⟨hnone, rfl⟩
      · rw [hsame]
        exact Or.inr (hwrite hx' rfl rfl)
  | ack ack running =>
    simp only [CmdTimers.step]
    obtain heq | ⟨c', hc', -, heq⟩ := h.processAck_cases ack running
    · rw [heq]
      exact Or.inr ⟨x, hx, rfl, rfl⟩
    · rw [heq]
      rcases hdel s c' with hnone | hsame
      · exact Or.inl ⟨hnone, rfl⟩
      · exact Or.inr ⟨x, hsame.trans hx, rfl, rfl⟩
  | expire c' now status cnt conn =>
    have hne : c ≠ c' := by
      rintro rfl
      rw [cmdExpiry, if_pos rfl] at he
      cases he
    refine Or.inr ⟨x, ?_, rfl, rfl⟩
    simp only [CmdTimers.step]
    cases hx' : s.timers.lookup c' with
    | none =>
      unfold CmdTimers.onCmdTimer
      rw [hx']
      exact hx
    | some x' =>
      rw [onCmdTimer_eq hx']
      split
      · change (s.timers.insert c' _).lookup c = some x
        rw [FiniteMap.lookup_insert, if_neg hne]
        exact hx
      · change (s.timers.erase c').lookup c = some x
        rw [FiniteMap.lookup_erase, if_neg hne]
        exact hx

/-- **Commands**: what `on_cmd_timer` owes to each of them. -/
theorem timerSpec (again : τ) (c : ℕ) :
    TimerSpec (cmdTimerMachine again) Timed (Gone c) (timerOf c) (cmdExpiry again c)
      CmdTimerEvent.isExpire := by
  have hevent : ∀ {e : CmdTimerEvent τ} {r : Expiry τ}, cmdExpiry again c e = some r →
      ∃ now status cnt conn, e = .expire c now status cnt conn ∧
        r = ⟨now, cnt, timerAction again now status cnt conn⟩ := by
    intro e r hr
    cases e with
    | expire c' now status cnt conn =>
      unfold cmdExpiry at hr
      dsimp only at hr
      split_ifs at hr with heq
      subst heq
      exact ⟨now, status, cnt, conn, rfl, (Option.some.inj hr).symm⟩
    | _ => cases hr
  constructor
  · exact fun s e h => h.step again e
  · intro s e x r h hx hr hidle hcnt
    obtain ⟨now, status, cnt, conn, rfl, rfl⟩ := hevent hr
    change (_ ∧ Gone c (s.onCmdTimer again c now status cnt conn)) ∨
      ∃ secs n, _ ∧ _ ∧ _ ∧ timerOf c (s.onCmdTimer again c now status cnt conn) = _
    rw [onCmdTimer_eq hx]
    rcases Timer.onTimer_idle hidle again (decide (status = .running)) conn hcnt with
      hremove | ⟨n, hrestart, hlt, hmax⟩
    · rw [show timerAction again now status cnt conn x = .remove from hremove]
      exact Or.inl ⟨hremove, h.delCmd_gone (h.isPending hx)⟩
    · rw [show timerAction again now status cnt conn x = .restart again n from hrestart]
      refine Or.inr ⟨again, n, hrestart, hlt, hmax, ?_⟩
      change (s.timers.insert c _).lookup c = _
      rw [FiniteMap.lookup_insert, if_pos rfl]
  · intro s e x r h hx hr hactive
    obtain ⟨now, status, cnt, conn, rfl, rfl⟩ := hevent hr
    have haction := Timer.onTimer_active hactive again (decide (status = .running)) conn cnt
    refine ⟨haction, ?_⟩
    change s.onCmdTimer again c now status cnt conn = s
    rw [onCmdTimer_eq hx, show timerAction again now status cnt conn x = _ from haction]
    change s.write c { x with curTimeoutCnt := x.curTimeoutCnt } = s
    rw [CmdTimers.write, FiniteMap.insert_lookup hx]
  · exact fun h hx he => h.step_other hx he
  · exact fun h => h.1

end Machine

end CmdTimers

-- A command that does not define its own `on_timeout` is deleted at the third idle expiration.
example :
    let x : Timer ℤ := { activeTime := 0, keepAlive := 3, maxTimeoutCnt := cmdMaxTimeoutCnt }
    let y := { x with curTimeoutCnt := 1 }
    let z := { x with curTimeoutCnt := 2 }
    CmdTimers.timerAction 3 3 x.cmdOnTimeout.1 x.cmdOnTimeout.2 true x = .restart 3 1 ∧
      CmdTimers.timerAction 3 6 y.cmdOnTimeout.1 y.cmdOnTimeout.2 true y = .restart 3 2 ∧
      CmdTimers.timerAction 3 9 z.cmdOnTimeout.1 z.cmdOnTimeout.2 true z = .remove := by
  decide

/-- **Pending commands and sessions expire**: in every state of the invariant, which holds at the
start and which every event keeps, and for every object whose `on_timeout` does not lower its
count. An expiration that finds it idle removes it with its timer, or counts it once more, below
its maximum, and restarts the timer; one that finds it active only restarts the timer for the rest
of the time. So the idle expirations that it survives, added to the count it starts with, stay
below its maximum, and no timer removes it before it is idle. -/
theorem timers_expire {τ : Type} [Sub τ] [Zero τ] [LT τ] [DecidableLT τ] (again : τ)
    (derives : ℕ → ℕ → Bool) :
    (CmdTimers.Timed ({} : CmdTimers τ) ∧ ∀ c,
      Expires (cmdTimerMachine again) CmdTimers.Timed (CmdTimers.Gone c) (CmdTimers.timerOf c)
        (cmdExpiry again c) CmdTimerEvent.isExpire) ∧
    (SessionMgr.Coincide ({} : SessionMgr τ) ∧ ∀ s,
      Expires (sessionMachine (τ := τ) derives) SessionMgr.Coincide (SessionMgr.Gone s)
        (SessionMgr.timerOf s) (sessionExpiry s) SessionEvent.isTimeout) := by
  refine ⟨⟨CmdTimers.timed_empty, fun c => ?_⟩, ⟨SessionMgr.coincide_empty, fun s => ?_⟩⟩
  · exact (CmdTimers.timerSpec again c).expires
  · exact (SessionMgr.timerSpec derives s).expires

end Kimserver
