import NettyTcpWeb.Server.Closers
import NettyTcpWeb.Server.Concurrent

/-!
# Logins among closes

Pages of one account log in on their event loops while others close channels, of the same account or
not. A login that has found the session object adds its page to it and stores it again. So it does
not matter if a close takes the account off the map in between: the object comes back with the page.
And a close that finds the page in the object leaves the account on the map. Only a login that finds
the account absent publishes an object of its own, which must not replace that of another login.

## Main definitions

* `Traffic`, `traffic`: logins and closes on the shared memory, and their interleavings
* `LooksUpAlone`: a login that finds the account absent is the only one under way
* `Session.Grows`, `Memory.Grows`: a session object keeps the pages of the logins
* `TrafficSafe`: the invariant of the interleavings

## Main results

* `Pc.Safe.mono`, `CloserPc.Safe.mono`: what the steps of the others leave as it is
* `safe_traffic`: the invariant holds before the first step
-/

namespace NettyTcpWeb

open Java (Text)

variable {C ι κ : Type}

/-- The shared memory, and how far each login and each close is. -/
structure Traffic (ι κ C : Type) where
  memory : Memory C
  login : ι → Pc C
  closer : κ → CloserPc

/-- No close holds the lock of the session manager. -/
def Traffic.Free (y : Traffic ι κ C) : Prop := ∀ k, ¬ (y.closer k).Locked

/-- The next function of the call is synchronized. -/
def Pc.Synchronized : Pc C → Prop
  | .addSession _ | .updateSession _ _ => True
  | _ => False

/-- The interleavings of logins and closes: a step that takes the lock has to wait for it. -/
def traffic [DecidableEq C] [Channel C] [DecidableEq ι] [DecidableEq κ] (call : ι → Call C)
    (ctx : κ → ChannelHandlerContext C) : Automaton (Traffic ι κ C) ((ι ⊕ κ) × Clock) where
  enabled y e :=
    match e.1 with
    | .inl i => y.login i ≠ .finished ∧ ((y.login i).Synchronized → y.Free)
    | .inr k => y.closer k ≠ .finished ∧ ((∃ a, y.closer k = .removeSession a) → y.Free)
  next y e :=
    match e.1 with
    | .inl i =>
      { y with
        memory := ((call i).next e.2 y.memory (y.login i)).1
        login := Function.update y.login i ((call i).next e.2 y.memory (y.login i)).2 }
    | .inr k =>
      { y with
        memory := (closerNext e.2 (ctx k) y.memory (y.closer k)).1
        closer := Function.update y.closer k (closerNext e.2 (ctx k) y.memory (y.closer k)).2 }

/-- The call holds a reference to a session object that it has not stored again yet. -/
def Pc.Holds (r : Ref) : Pc C → Prop
  | .setSessionContent (some session) | .addSessions session _ | .updateSession session _ =>
    session = r
  | _ => False

/-- The call has looked the account up, and has not stored a session yet. -/
def Pc.Underway (p : Pc C) : Prop := p.Publishes ∨ ∃ r, p.Holds r

/-- A login that finds the account absent is the only one under way. -/
def LooksUpAlone (a : Text) (y : Traffic ι κ C) (e : (ι ⊕ κ) × Clock) : Prop :=
  match e.1 with
  | .inl i => y.login i = .get → y.memory.sessions a = none →
      ∀ j, j ≠ i → ¬ (y.login j).Underway
  | .inr _ => True

/-! ## Session objects that grow -/

section Grows

variable [Channel C]

/-- A page of the session has the channel, under its short id. -/
def Session.HasPage (S : Session C) (c : C) : Prop :=
  ∃ page, (Channel.asShortText c, page) ∈ S.sessions ∧ page.session = c

/-- The session keeps the channel when pages under the given short ids are closed. -/
def Session.Keeps (S : Session C) (nids : Text → Prop) (c : C) : Prop :=
  S.HasPage c ∨ S.session = c ∧ S.nid = Channel.asShortText c ∧ ∀ e ∈ S.sessions, ¬ nids e.1

theorem Session.HasPage.attached {S : Session C} {c : C} (h : S.HasPage c) : S.Attached c := by
  obtain ⟨page, hpage, rfl⟩ := h
  exact .inr ⟨_, hpage, rfl⟩

theorem Session.Keeps.attached {S : Session C} {nids : Text → Prop} {c : C} (h : S.Keeps nids c) :
    S.Attached c := by
  rcases h with h | ⟨rfl, -⟩
  · exact h.attached
  · exact .inl rfl

/-- What a step may do to a session object: it keeps the pages of the channels `cs`, and gets none
under the short ids `nids`. -/
structure Session.Grows (nids : Text → Prop) (cs : C → Prop) (S S' : Session C) : Prop where
  account : S'.account = S.account
  source : S'.source = S.source
  session : S'.session = S.session
  nid : S'.nid = S.nid
  page : ∀ c, cs c → S.HasPage c → S'.HasPage c
  pages : ∀ e ∈ S'.sessions, nids e.1 → e ∈ S.sessions

/-- What a step may do to the session objects. -/
structure Memory.Grows (nids : Text → Prop) (cs : C → Prop) (x x' : Memory C) : Prop where
  fresh : x.fresh ≤ x'.fresh
  object : ∀ r, r < x.fresh → (x.heap r).Grows nids cs (x'.heap r)

variable {nids : Text → Prop} {cs : C → Prop} {S S' : Session C} {x x' : Memory C}

theorem Session.Grows.refl (S : Session C) : S.Grows nids cs S where
  account := rfl
  source := rfl
  session := rfl
  nid := rfl
  page _ _ h := h
  pages _ h _ := h

theorem Session.Grows.keeps {c : C} (h : S.Grows nids cs S') (hc : cs c) (hS : S.Keeps nids c) :
    S'.Keeps nids c := by
  rcases hS with hpage | ⟨hsession, hnid, hpages⟩
  · exact .inl (h.page c hc hpage)
  · refine .inr ⟨h.session.trans hsession, h.nid.trans hnid, fun e he hclosed => ?_⟩
    exact hpages e (h.pages e he hclosed) hclosed

/-- A login adds its page. -/
theorem Session.Grows.addSessions {new : Session C} (hnids : ¬ nids new.nid)
    (hcs : ∀ c, cs c → Channel.asShortText c = new.nid → new.session = c) :
    S.Grows nids cs (S.addSessions new) where
  account := rfl
  source := rfl
  session := rfl
  nid := rfl
  page c hc := by
    rintro ⟨page, hpage, rfl⟩
    by_cases hnew : Channel.asShortText page.session = new.nid
    · exact ⟨new, HashMap.mem_put.mpr (.inl (by rw [hnew])), hcs _ hc hnew⟩
    · exact ⟨page, HashMap.mem_put.mpr (.inr ⟨hpage, hnew⟩), rfl⟩
  pages e he hclosed := by
    rcases HashMap.mem_put.mp he with rfl | ⟨hold, -⟩
    · exact absurd hclosed hnids
    · exact hold

/-- A close removes its page. -/
theorem Session.Grows.without {nid : Text} (hcs : ∀ c, cs c → Channel.asShortText c ≠ nid) :
    S.Grows nids cs (S.without nid) where
  account := rfl
  source := rfl
  session := rfl
  nid := rfl
  page c hc := fun ⟨page, hpage, hsession⟩ =>
    ⟨page, HashMap.mem_remove.mpr ⟨hpage, hcs c hc⟩, hsession⟩
  pages _ he _ := (HashMap.mem_remove.mp he).1

theorem Memory.Grows.of_heap (hfresh : x'.fresh = x.fresh) (hheap : x'.heap = x.heap) :
    x.Grows nids cs x' where
  fresh := hfresh.ge
  object _ _ := hheap ▸ .refl _

/-- One object changes. -/
theorem Memory.Grows.update {r : Ref} {S : Session C} (h : (x.heap r).Grows nids cs S)
    (hfresh : x'.fresh = x.fresh) (hheap : x'.heap = Function.update x.heap r S) :
    x.Grows nids cs x' where
  fresh := hfresh.ge
  object r' _ := by
    rw [hheap]
    by_cases hr : r' = r
    · subst hr
      rwa [Function.update_self]
    · rw [Function.update_of_ne hr]
      exact .refl _

end Grows

/-! ## The invariant -/

section Safe

variable [Channel C]

/-- The object is that of web pages of the account, which has no other one. -/
structure Memory.Found (x : Memory C) (a : Text) (r : Ref) : Prop where
  fresh : r < x.fresh
  account : (x.heap r).account = a
  source : (x.heap r).source = .websocket
  stored : x.sessions a = none ∨ x.sessions a = some r

/-- Where a login of the channel can be. While it publishes a session the account is absent. When it
has stored one, that is what the map has. -/
def Pc.Safe (x : Memory C) (a : Text) (nids : Text → Prop) (c : C) : Pc C → Prop
  | .heartbeat => x.rest.account c ≠ some a
  | .get => True
  | .setSessionContent none => x.sessions a = none
  | .addSession new => x.sessions a = none ∧ new.OfLogin c .websocket a
  | .setSessionContent (some r) => x.Found a r
  | .addSessions r new => x.Found a r ∧ new.OfLogin c .websocket a
  | .updateSession r _ => x.Found a r ∧ (x.heap r).HasPage c
  | .leaveGroup _ | .remove _ => False
  | .joinGroup _ | .setAccount | .getSession | .write _ | .finished =>
    ∃ r, x.sessions a = some r ∧ (x.heap r).Keeps nids c

/-- Where a close can be while the channels `cs` have logged in. The object that it has found under
the lock is stored, and when it has counted no pages there are no such channels. -/
def CloserPc.Safe (x : Memory C) (a : Text) (cs : C → Prop) : CloserPc → Prop
  | .closePage key r => x.sessions key = some r
  | .close key r => x.sessions key = some r ∧ key ≠ a
  | .otherSessionSize key r =>
    x.sessions key = some r ∧ (key = a → ∀ c, cs c → (x.heap r).HasPage c)
  | .remove key => key = a → ∀ c, ¬ cs c
  | .getSession | .removeSession _ | .broadcast _ | .leaveGroup | .finished => True

/-- The channels of the logins. -/
def Logins (call : ι → Call C) (c : C) : Prop := ∃ i, c = (call i).channel

/-- The short ids of the channels that are closed. -/
def ClosedIds (ctx : κ → ChannelHandlerContext C) (nid : Text) : Prop :=
  ∃ k, nid = Channel.asShortText (ctx k).channel

/-- The channels whose logins have stored their session. -/
def Traffic.LoggedIn (call : ι → Call C) (y : Traffic ι κ C) (c : C) : Prop :=
  ∃ i, (y.login i).Published ∧ c = (call i).channel

/-- The invariant of the interleavings that lose no login. -/
structure TrafficSafe (call : ι → Call C) (ctx : κ → ChannelHandlerContext C) (a : Text)
    (y : Traffic ι κ C) : Prop where
  /-- the stored objects exist, each under its own account -/
  stored : ∀ key r, y.memory.sessions key = some r →
    r < y.memory.fresh ∧ (y.memory.heap r).account = key
  /-- the account belongs to web pages -/
  source : ∀ r, y.memory.sessions a = some r → (y.memory.heap r).source = .websocket
  login : ∀ i, (y.login i).Safe y.memory a (ClosedIds ctx) (call i).channel
  /-- two logins under way hold the same object, so neither of them publishes a session -/
  beside : ∀ i j, i ≠ j → (y.login i).Underway → (y.login j).Underway →
    ∃ r, (y.login i).Holds r ∧ (y.login j).Holds r
  /-- one close has the lock -/
  lock : ∀ k k', (y.closer k).Locked → (y.closer k').Locked → k = k'
  closer : ∀ k, (y.closer k).Safe y.memory a (y.LoggedIn call)

variable {call : ι → Call C} {ctx : κ → ChannelHandlerContext C} {a : Text} {y : Traffic ι κ C}
  {x x' : Memory C} {nids : Text → Prop} {cs : C → Prop} {c : C} {p : Pc C}

theorem Pc.Published.safe_iff (hp : p.Published) : p.Safe x a nids c ↔
    ∃ r, x.sessions a = some r ∧ (x.heap r).Keeps nids c := by
  cases p with
  | joinGroup | setAccount | getSession | write | finished => exact Iff.rfl
  | heartbeat | get | leaveGroup | remove | setSessionContent | addSession | addSessions
  | updateSession => exact absurd hp id

theorem Pc.Publishes.absent (hp : p.Publishes) (h : p.Safe x a nids c) : x.sessions a = none := by
  cases p with
  | setSessionContent session =>
    cases session with
    | none => exact h
    | some session => exact absurd hp id
  | addSession => exact h.1
  | heartbeat | get | leaveGroup | remove | addSessions | updateSession | joinGroup | setAccount
  | getSession | write | finished => exact absurd hp id

theorem Pc.Holds.found {r : Ref} (hp : p.Holds r) (h : p.Safe x a nids c) : x.Found a r := by
  cases p with
  | setSessionContent session =>
    cases session with
    | none => exact absurd hp id
    | some session =>
      obtain rfl : session = r := hp
      exact h
  | addSessions session =>
    obtain rfl : session = r := hp
    exact h.1
  | updateSession session =>
    obtain rfl : session = r := hp
    exact h.1
  | heartbeat | get | leaveGroup | remove | addSession | joinGroup | setAccount | getSession
  | write | finished => exact absurd hp id

omit [Channel C] in
theorem Pc.not_underway (hp : ¬ p.Publishes) (hr : ∀ r, ¬ p.Holds r) : ¬ p.Underway :=
  fun h => h.elim hp fun ⟨r, h⟩ => hr r h

omit [Channel C] in
theorem Pc.Published.not_underway (hp : p.Published) : ¬ p.Underway := by
  refine Pc.not_underway hp.not_publishes fun r => ?_
  cases p with
  | joinGroup | setAccount | getSession | write | finished => exact id
  | heartbeat | get | leaveGroup | remove | setSessionContent | addSession | addSessions
  | updateSession => exact absurd hp id

omit [Channel C] in
theorem Pc.Publishes.not_holds {r : Ref} (hp : p.Publishes) : ¬ p.Holds r := by
  cases p with
  | setSessionContent session =>
    cases session with
    | none => exact id
    | some session => exact absurd hp id
  | addSession => exact id
  | heartbeat | get | leaveGroup | remove | addSessions | updateSession | joinGroup | setAccount
  | getSession | write | finished => exact absurd hp id

omit [Channel C] in
theorem Pc.Holds.unique {r r' : Ref} (hp : p.Holds r) (hp' : p.Holds r') : r = r' := by
  cases p with
  | setSessionContent session =>
    cases session with
    | none => exact absurd hp id
    | some session => exact Eq.trans (Eq.symm hp) hp'
  | addSessions | updateSession => exact Eq.trans (Eq.symm hp) hp'
  | heartbeat | get | leaveGroup | remove | addSession | joinGroup | setAccount | getSession
  | write | finished => exact absurd hp id

/-- What a login admits of the map: the account stays absent while it publishes a session, has no
object but the one it holds, and keeps the one it has stored. -/
structure Pc.Admits (x x' : Memory C) (a : Text) (p : Pc C) : Prop where
  publishes : p.Publishes → x'.sessions a = none
  holds : ∀ r, p.Holds r → x'.sessions a = none ∨ x'.sessions a = some r
  published : p.Published → x'.sessions a = x.sessions a

theorem Pc.Safe.admits (h : p.Safe x a nids c) (hsessions : x'.sessions = x.sessions) :
    p.Admits x x' a where
  publishes hp := (congrFun hsessions a).trans (hp.absent h)
  holds _ hr := hsessions ▸ (hr.found h).stored
  published _ := congrFun hsessions a

/-- A step of another call leaves a login where it can be, if the objects only grow and the map
changes as the login admits. -/
theorem Pc.Safe.mono (h : p.Safe x a nids c) (hc : cs c) (hgrow : x.Grows nids cs x')
    (hstored : ∀ r, x.sessions a = some r → r < x.fresh)
    (haccount : x'.rest.account c = x.rest.account c) (hadmits : p.Admits x x' a) :
    p.Safe x' a nids c := by
  have hfound : ∀ r, p.Holds r → x'.Found a r := by
    intro r hr
    obtain ⟨hfresh, hacc, hsource, -⟩ := hr.found h
    have hobject := hgrow.object r hfresh
    exact ⟨hfresh.trans_le hgrow.fresh, hobject.account.trans hacc, hobject.source.trans hsource,
      hadmits.holds r hr⟩
  cases p with
  | heartbeat =>
    show x'.rest.account c ≠ some a
    rw [haccount]
    exact h
  | get => exact trivial
  | setSessionContent session =>
    cases session with
    | none => exact hadmits.publishes trivial
    | some r => exact hfound r rfl
  | addSession => exact ⟨hadmits.publishes trivial, h.2⟩
  | addSessions r => exact ⟨hfound r rfl, h.2⟩
  | updateSession r => exact ⟨hfound r rfl, (hgrow.object r h.1.fresh).page c hc h.2⟩
  | leaveGroup | remove => exact h
  | joinGroup | setAccount | getSession | write | finished =>
    obtain ⟨r, hr, hkeeps⟩ := h
    exact ⟨r, (hadmits.published trivial).trans hr, (hgrow.object r (hstored r hr)).keeps hc hkeeps⟩

/-- A close that holds the lock stays where it can be, if its object stays stored and no further
channel has logged in. -/
theorem CloserPc.Safe.mono {cs' keep : C → Prop} {q : CloserPc} (h : q.Safe x a cs)
    (hgrow : x.Grows nids keep x') (hstored : ∀ key r, x.sessions key = some r → r < x.fresh)
    (hsessions : x'.sessions = x.sessions) (hcs : ∀ c, cs' c → cs c) (hkeep : ∀ c, cs c → keep c) :
    q.Safe x' a cs' := by
  cases q with
  | closePage key r => exact (congrFun hsessions key).trans h
  | close key r => exact ⟨(congrFun hsessions key).trans h.1, h.2⟩
  | otherSessionSize key r =>
    refine ⟨(congrFun hsessions key).trans h.1, fun hkey c hc => ?_⟩
    have hobject := hgrow.object r (hstored key r h.1)
    exact hobject.page c (hkeep c (hcs c hc)) (h.2 hkey c (hcs c hc))
  | remove key => exact fun hkey c hc => h hkey c (hcs c hc)
  | getSession | removeSession | broadcast | leaveGroup | finished => exact trivial

theorem CloserPc.safe_of_not_locked {q : CloserPc} (hq : ¬ q.Locked) : q.Safe x a cs := by
  cases q with
  | closePage | close | otherSessionSize | remove | broadcast => exact absurd trivial hq
  | getSession | removeSession | leaveGroup | finished => exact trivial

/-- The logins and the closes before their first steps. -/
def Memory.traffic (x : Memory C) : Traffic ι κ C :=
  ⟨x, fun _ => .heartbeat, fun _ => .getSession⟩

theorem safe_traffic (hx : x.Valid) (hwf : x.server.Wellformed)
    (hws : ∀ S, x.server.sessions a = some S → S.source = .websocket)
    (hnew : ∀ i, x.server.account (call i).channel ≠ some a) :
    TrafficSafe call ctx a (x.traffic : Traffic ι κ C) where
  stored _ _ hr := ⟨hx _ _ hr, Memory.account_heap hwf hr⟩
  source _ hr := hws _ (congrArg (Option.map x.heap) hr)
  login i := hnew i
  beside _ _ _ h := absurd h (Pc.not_underway id fun _ => id)
  lock _ _ h := absurd h id
  closer _ := trivial

end Safe

end NettyTcpWeb
