import NettyTcpWeb.Server.Calls
import NettyTcpWeb.Server.Client
import NettyTcpWeb.Server.Registry

/-!
# Concurrent logins of web pages

The pages of one account log in on different event loops. A call that finds a session adds its page
to that object, and all of them add to the same one. A call that finds none publishes an object of
its own, and only the last such object stays in the map: two calls that both find the account absent
lose one of the two logins.

## Main definitions

* `Loops`, `logins`: the calls on their event loops, and their interleavings
* `KeepsLogins`: the steps that lose no login
* `LoginsKept`: the invariant of the runs whose steps all do so

## Main results

* `LoginsKept.next`: what a step of a call leaves to be shown of its own call and of the others
* `loginsKept_next`: a step that loses no login keeps the invariant
* `attached_of_logins`: **no login is lost** in a run whose steps all keep the logins
-/

namespace NettyTcpWeb

open Java (Text lit)
open StateExcept

variable {C ι : Type}

/-- The shared memory, and how far each call is. -/
structure Loops (ι C : Type) where
  memory : Memory C
  pc : ι → Pc C

/-- The interleavings of the calls: at each step one of them goes on. -/
def logins [DecidableEq C] [Channel C] [DecidableEq ι] (call : ι → Call C) :
    Automaton (Loops ι C) (ι × Clock) where
  enabled y e := y.pc e.1 ≠ .finished
  next y e :=
    { memory := ((call e.1).next e.2 y.memory (y.pc e.1)).1
      pc := Function.update y.pc e.1 ((call e.1).next e.2 y.memory (y.pc e.1)).2 }

/-- The call has found no session, and has not published one yet. -/
def Pc.Publishes : Pc C → Prop
  | .setSessionContent none | .addSession _ => True
  | _ => False

/-- The call has added its session, or has failed. -/
def Pc.Published : Pc C → Prop
  | .joinGroup _ | .setAccount | .getSession | .write _ | .finished => True
  | _ => False

theorem Pc.Published.ne_heartbeat {p : Pc C} (hp : p.Published) : p ≠ .heartbeat := by
  rintro rfl
  exact hp

theorem Pc.Published.not_publishes {p : Pc C} (hp : p.Published) : ¬ p.Publishes := by
  cases p with
  | joinGroup | setAccount | getSession | write | finished => exact id
  | heartbeat | get | leaveGroup | remove | setSessionContent | addSession | addSessions
  | updateSession => exact absurd hp id

/-- The steps that lose no login. A call that finds the account absent is the only one that is about
to publish a session; the address of a call is known, unless its channel is attached already; and a
page replaces no page of another call. -/
def KeepsLogins (call : ι → Call C) (a : Text) (y : Loops ι C) (e : ι × Clock) : Prop :=
  match y.pc e.1 with
  | .get => y.memory.sessions a = none → ∀ j, j ≠ e.1 → ¬ (y.pc j).Publishes
  | .setSessionContent _ =>
    (call e.1).ctx.remoteAddress = none → y.memory.server.Attached a (call e.1).channel
  | .addSessions session newsession =>
    ∀ page, (newsession.nid, page) ∈ (y.memory.heap session).sessions →
      page.session = (y.memory.heap session).session ∨
        ∀ j, j ≠ e.1 → page.session ≠ (call j).channel
  | _ => True

/-! ## The invariant -/

/-- The session stored under an account, with its reference. -/
def Memory.entry (x : Memory C) (a : Text) : Option (Ref × Session C) :=
  (x.sessions a).map fun session => (session, x.heap session)

section Fits

variable [Channel C] {c : C} {a : Text}

/-- How far a call of the channel `c` can be, given the session stored under the account: it has
found what is stored now, and once it has added its session the channel stays attached. -/
def Pc.Fits (c : C) (a : Text) : Option (Ref × Session C) → Pc C → Prop
  | _, .heartbeat | _, .get | none, .setSessionContent none => True
  | none, .addSession new => new.OfLogin c .websocket a
  | some (r, _), .setSessionContent (some session) => session = r
  | some (r, _), .addSessions session new => session = r ∧ new.OfLogin c .websocket a
  | some (r, S), .updateSession session _ => session = r ∧ S.Attached c
  | some (_, S), .joinGroup _ | some (_, S), .setAccount | some (_, S), .getSession
  | some (_, S), .write _ | some (_, S), .finished => S.Attached c
  | _, _ => False

/-- A call fits a session that keeps its channel. -/
theorem Pc.Fits.mono {r : Ref} {S S' : Session C} {p : Pc C} (h : p.Fits c a (some (r, S)))
    (hS : S.Attached c → S'.Attached c) : p.Fits c a (some (r, S')) := by
  cases p with
  | heartbeat | get => exact trivial
  | leaveGroup | remove | addSession => exact h
  | setSessionContent session =>
    cases session with
    | none => exact h
    | some session => exact h
  | addSessions session new => exact h
  | updateSession session new => exact ⟨h.1, hS h.2⟩
  | joinGroup | setAccount | getSession | write | finished => exact hS h

/-- A call that is not about to publish a session fits whatever the first one publishes. -/
theorem Pc.Fits.publish {e : Ref × Session C} {p : Pc C} (h : p.Fits c a none)
    (hp : ¬ p.Publishes) : p.Fits c a (some e) := by
  cases p with
  | heartbeat | get => exact trivial
  | setSessionContent session =>
    cases session with
    | none => exact absurd trivial hp
    | some session => exact absurd h id
  | addSession => exact absurd trivial hp
  | leaveGroup | remove | addSessions | updateSession | joinGroup | setAccount | getSession | write
  | finished => exact absurd h id

theorem Pc.Published.fits {r : Ref} {S : Session C} {p : Pc C} (hp : p.Published)
    (hS : S.Attached c) : p.Fits c a (some (r, S)) := by
  cases p with
  | joinGroup | setAccount | getSession | write | finished => exact hS
  | heartbeat | get | leaveGroup | remove | setSessionContent | addSession | addSessions
  | updateSession => exact absurd hp id

theorem Pc.Fits.attached {e : Option (Ref × Session C)} {p : Pc C} (h : p.Fits c a e)
    (hp : p.Published) : ∃ r S, e = some (r, S) ∧ S.Attached c := by
  cases e with
  | none =>
    cases p with
    | joinGroup | setAccount | getSession | write | finished => exact absurd h id
    | heartbeat | get | leaveGroup | remove | setSessionContent | addSession | addSessions
    | updateSession => exact absurd hp id
  | some e =>
    refine ⟨e.1, e.2, rfl, ?_⟩
    cases p with
    | joinGroup | setAccount | getSession | write | finished => exact h
    | heartbeat | get | leaveGroup | remove | setSessionContent | addSession | addSessions
    | updateSession => exact absurd hp id

end Fits

/-- The invariant of the runs that lose no login. -/
structure LoginsKept [Channel C] (call : ι → Call C) (a : Text) (y : Loops ι C) : Prop where
  /-- a call that has not begun logs in -/
  start : ∀ i, y.pc i = .heartbeat → y.memory.rest.account (call i).channel ≠ some a
  /-- the stored session is that of web pages -/
  entry : ∀ r S, y.memory.entry a = some (r, S) → S.source = .websocket ∧ S.account = a
  /-- each call fits the stored session -/
  fits : ∀ i, (y.pc i).Fits (call i).channel a (y.memory.entry a)
  /-- at most one call is about to publish a session -/
  single : y.memory.entry a = none → ∀ i j, (y.pc i).Publishes → (y.pc j).Publishes → i = j

section Entry

variable {x : Memory C} {a : Text} {r : Ref}

theorem Memory.entry_of_some (h : x.sessions a = some r) : x.entry a = some (r, x.heap r) := by
  simp [Memory.entry, h]

theorem Memory.sessions_of_entry {S : Session C} (h : x.entry a = some (r, S)) :
    x.sessions a = some r ∧ x.heap r = S := by
  simpa [Memory.entry] using h

theorem Memory.attached_of_entry {S : Session C} {c : C} (h : x.entry a = some (r, S)) :
    x.server.Attached a c ↔ S.Attached c := by
  obtain ⟨hr, rfl⟩ := Memory.sessions_of_entry h
  exact attached_of_some (by simp [Memory.server, hr])

theorem Memory.entry_of_attached {c : C} (h : x.server.Attached a c) :
    ∃ r S, x.entry a = some (r, S) ∧ S.Attached c := by
  obtain ⟨S, hS, hc⟩ := h
  obtain ⟨r, hr, rfl⟩ := Option.map_eq_some_iff.mp hS
  exact ⟨r, x.heap r, Memory.entry_of_some hr, hc⟩

theorem Memory.entry_addSession [DecidableEq C] {new : Session C} (h : new.account = a) :
    (x.addSession new).entry a = some (x.fresh, new) := by
  simp [Memory.entry, Memory.addSession, h]

theorem Memory.entry_addSessions {new S : Session C} (h : x.entry a = some (r, S)) :
    (x.addSessions r new).entry a = some (r, S.addSessions new) := by
  obtain ⟨hr, rfl⟩ := Memory.sessions_of_entry h
  simp [Memory.entry, Memory.addSessions, hr]

theorem Memory.entry_updateSession {S : Session C} (now : Clock) (h : x.entry a = some (r, S))
    (haccount : S.account = a) :
    (x.updateSession now r).entry a = some (r, { S with updateTime := now.millis }) := by
  obtain ⟨hr, rfl⟩ := Memory.sessions_of_entry h
  simp [Memory.entry, Memory.updateSession, haccount]

end Entry

section Next

variable [DecidableEq C] [Channel C] [DecidableEq ι] {call : ι → Call C} {a : Text} {y : Loops ι C}
  {i : ι} {now : Clock} {x : Memory C} {p : Pc C}

/-- A step of the call `i` keeps the invariant if its own call and all others fit what is stored
behind it. -/
theorem LoginsKept.next (hy : LoginsKept call a y)
    (hnext : (call i).next now y.memory (y.pc i) = (x, p))
    (haccount : ∀ j, j ≠ i → x.rest.account (call j).channel =
      y.memory.rest.account (call j).channel)
    (hstart : p ≠ .heartbeat)
    (hentry : ∀ r S, x.entry a = some (r, S) → S.source = .websocket ∧ S.account = a)
    (hfits : p.Fits (call i).channel a (x.entry a))
    (hothers : ∀ j, j ≠ i → (y.pc j).Fits (call j).channel a (x.entry a))
    (hsingle : x.entry a = none → y.memory.entry a = none ∧
      (p.Publishes → ∀ j, j ≠ i → ¬ (y.pc j).Publishes)) :
    LoginsKept call a ((logins call).next y (i, now)) := by
  set z := (logins call).next y (i, now) with hz
  have hmemory : z.memory = x := congrArg Prod.fst hnext
  have hself : z.pc i = p := (Function.update_self _ _ _).trans (congrArg Prod.snd hnext)
  have hpc : ∀ j, j ≠ i → z.pc j = y.pc j := fun j hj => Function.update_of_ne hj _ _
  constructor
  case start =>
    intro j hj
    by_cases hji : j = i
    · subst hji
      exact absurd (hself.symm.trans hj) hstart
    · rw [hpc j hji] at hj
      rw [hmemory, haccount j hji]
      exact hy.start j hj
  case entry => rwa [hmemory]
  case fits =>
    intro j
    rw [hmemory]
    by_cases hji : j = i
    · subst hji
      rwa [hself]
    · rw [hpc j hji]
      exact hothers j hji
  case single =>
    rw [hmemory]
    intro hnone j k hj hk
    obtain ⟨hold, halone⟩ := hsingle hnone
    by_cases hji : j = i
    · by_cases hki : k = i
      · exact hji.trans hki.symm
      · subst hji
        exact absurd (hpc k hki ▸ hk) (halone (hself ▸ hj) k hki)
    · by_cases hki : k = i
      · subst hki
        exact absurd (hpc j hji ▸ hj) (halone (hself ▸ hk) j hji)
      · exact hy.single hold j k (hpc j hji ▸ hj) (hpc k hki ▸ hk)

/-- A step that leaves the stored session as it is. -/
theorem LoginsKept.same (hy : LoginsKept call a y)
    (hnext : (call i).next now y.memory (y.pc i) = (x, p))
    (haccount : ∀ j, j ≠ i → x.rest.account (call j).channel =
      y.memory.rest.account (call j).channel)
    (hentry : x.entry a = y.memory.entry a) (hstart : p ≠ .heartbeat)
    (hfits : p.Fits (call i).channel a (y.memory.entry a))
    (hsingle : y.memory.entry a = none → p.Publishes → ∀ j, j ≠ i → ¬ (y.pc j).Publishes) :
    LoginsKept call a ((logins call).next y (i, now)) := by
  refine hy.next hnext haccount hstart ?_ ?_ ?_ ?_ <;> rw [hentry]
  · exact hy.entry
  · exact hfits
  · exact fun j _ => hy.fits j
  · exact fun hnone => ⟨hnone, hsingle hnone⟩

/-- A step that changes the stored session, but detaches no channel of another call. -/
theorem LoginsKept.grow {r : Ref} {S S' : Session C} (hy : LoginsKept call a y)
    (hnext : (call i).next now y.memory (y.pc i) = (x, p)) (hrest : x.rest = y.memory.rest)
    (hold : y.memory.entry a = some (r, S)) (hentry : x.entry a = some (r, S'))
    (hsource : S'.source = S.source) (haccount : S'.account = S.account)
    (hattached : ∀ j, j ≠ i → S.Attached (call j).channel → S'.Attached (call j).channel)
    (hstart : p ≠ .heartbeat) (hfits : p.Fits (call i).channel a (some (r, S'))) :
    LoginsKept call a ((logins call).next y (i, now)) := by
  refine hy.next hnext (fun j _ => by rw [hrest]) hstart ?_ ?_ ?_ ?_ <;> rw [hentry]
  · intro r' T hT
    obtain ⟨rfl, rfl⟩ : r = r' ∧ S' = T := by simpa using hT
    rw [hsource, haccount]
    exact hy.entry r S hold
  · exact hfits
  · intro j hj
    have hfit := hy.fits j
    rw [hold] at hfit
    exact hfit.mono (hattached j hj)
  · exact fun hnone => by cases hnone

omit [DecidableEq ι] in
/-- A call that has added its session changes the stored session no more. -/
theorem Call.next_of_published (call : Call C) (now : Clock) (x : Memory C)
    (hp : p.Published) : (call.next now x p).1.entry a = x.entry a ∧
      (∀ c, c ≠ call.channel → (call.next now x p).1.rest.account c = x.rest.account c) ∧
        (call.next now x p).2.Published := by
  cases p with
  | joinGroup new => exact ⟨rfl, fun _ _ => rfl, trivial⟩
  | setAccount => exact ⟨rfl, fun c hc => Function.update_of_ne hc _ _, trivial⟩
  | getSession =>
    refine ⟨rfl, fun _ _ => rfl, ?_⟩
    simp only [Call.next]
    cases x.sessions call.sessionId <;> exact trivial
  | write session =>
    refine ⟨rfl, fun c _ => ?_, trivial⟩
    simp only [Call.next, Memory.modify, Session.write_apply]
    rfl
  | finished => exact ⟨rfl, fun _ _ => rfl, trivial⟩
  | heartbeat | get | leaveGroup | remove | setSessionContent | addSession | addSessions
  | updateSession => exact absurd hp id

omit [Channel C] [DecidableEq C] [DecidableEq ι] in
/-- A page keeps the channels of a session that it does not replace. -/
theorem Session.Attached.addSessions {S new : Session C} {x : C} (h : S.Attached x)
    (hkeeps : ∀ page, (new.nid, page) ∈ S.sessions → page.session = S.session ∨ page.session ≠ x) :
    (S.addSessions new).Attached x := by
  rcases h with rfl | ⟨e, he, rfl⟩
  · exact .inl rfl
  · by_cases hnid : e.1 = new.nid
    · have hpage : (new.nid, e.2) ∈ S.sessions := hnid ▸ he
      rcases hkeeps e.2 hpage with hown | hne
      · exact .inl hown
      · exact absurd rfl hne
    · exact .inr ⟨e, HashMap.mem_put.mpr (.inr ⟨he, hnid⟩), rfl⟩

section Cases

variable (hchannel : Function.Injective fun i => (call i).channel)
  (hpages : ∀ i, Channel.server (call i).channel = .websocket)
  (haccount : ∀ i, (call i).sessionId = a) (hy : LoginsKept call a y)

include hchannel hy in
theorem loginsKept_of_published (hp : (y.pc i).Published) :
    LoginsKept call a ((logins call).next y (i, now)) := by
  obtain ⟨hentry, hrest, hdone⟩ := (call i).next_of_published (a := a) now y.memory hp
  obtain ⟨r, S, hS, hattached⟩ := (hy.fits i).attached hp
  refine hy.same rfl (fun j hj => hrest _ (hchannel.ne hj)) hentry hdone.ne_heartbeat ?_ ?_
  · rw [hS]
    exact hdone.fits hattached
  · exact fun _ h => absurd h hdone.not_publishes

include haccount hy in
theorem loginsKept_of_heartbeat (hp : y.pc i = .heartbeat) :
    LoginsKept call a ((logins call).next y (i, now)) := by
  have hnew := hy.start i hp
  rw [← haccount i] at hnew
  have hnext := (call i).next_heartbeat_of_connecting now hnew
  rw [← hp] at hnext
  refine hy.same hnext (fun j _ => rfl) rfl nofun ?_ fun _ h => absurd h id
  cases y.memory.entry a <;> exact trivial

include hpages haccount hy in
theorem loginsKept_of_get (hp : y.pc i = .get) (hkeeps : KeepsLogins call a y (i, now)) :
    LoginsKept call a ((logins call).next y (i, now)) := by
  simp only [KeepsLogins, hp] at hkeeps
  cases he : y.memory.entry a with
  | none =>
    have hnone : y.memory.sessions a = none := by simpa [Memory.entry] using he
    have hnext := (call i).next_get_of_none now (x := y.memory) (by rw [haccount i, hnone])
    rw [← hp] at hnext
    refine hy.same hnext (fun j _ => rfl) rfl nofun ?_ fun _ _ => hkeeps hnone
    rw [he]
    exact trivial
  | some e =>
    obtain ⟨hr, hS⟩ := Memory.sessions_of_entry he
    have hws := (hy.entry e.1 e.2 he).1
    have hnext := (call i).next_get_of_page now (by rw [haccount i, hr]) (hS ▸ hws) (hpages i)
    rw [← hp] at hnext
    refine hy.same hnext (fun j _ => rfl) rfl nofun ?_ fun _ h => absurd h id
    rw [he]
    rfl

include hchannel hpages haccount hy in
theorem loginsKept_of_setSessionContent {session : Option Ref}
    (hp : y.pc i = .setSessionContent session) (hkeeps : KeepsLogins call a y (i, now)) :
    LoginsKept call a ((logins call).next y (i, now)) := by
  have hown := hy.fits i
  simp only [KeepsLogins, hp] at hkeeps hown
  have hrest : ∀ j, j ≠ i → (y.memory.modify (·.setAccount (call i).channel
      (call i).sessionId)).rest.account (call j).channel =
        y.memory.rest.account (call j).channel :=
    fun j hj => Function.update_of_ne (hchannel.ne hj) _ _
  by_cases haddr : (call i).ctx.remoteAddress = none
  · have hnext := (call i).next_setSessionContent_of_unknown now (x := y.memory) session haddr
    rw [← hp] at hnext
    refine hy.same hnext hrest rfl nofun ?_ fun _ h => absurd h id
    obtain ⟨r, S, hS, hattached⟩ := Memory.entry_of_attached (hkeeps haddr)
    rw [hS]
    exact hattached
  · obtain ⟨new, hnew, hset⟩ := setSessionContent_of_known (w := (call i).wrapper) (call i).ctx now
      (call i).sessionId rfl haddr
    have hnew : new.OfLogin (call i).channel .websocket a := by
      rw [← haccount i, ← hpages i]
      exact hnew
    have hnext := (call i).next_setSessionContent now (x := y.memory) hset session
    rw [← hp] at hnext
    cases he : y.memory.entry a with
    | none =>
      rw [he] at hown
      cases session with
      | none =>
        refine hy.same hnext hrest rfl nofun ?_ fun hnone _ j hj hpub => ?_
        · rw [he]
          exact hnew
        · exact hj (hy.single hnone j i hpub (by rw [hp]; trivial))
      | some session => exact absurd hown id
    | some e =>
      rw [he] at hown
      cases session with
      | none => exact absurd hown id
      | some session =>
        refine hy.same hnext hrest rfl nofun ?_ fun _ h => absurd h id
        rw [he]
        exact ⟨hown, hnew⟩

include hy in
theorem loginsKept_of_addSession {new : Session C} (hp : y.pc i = .addSession new) :
    LoginsKept call a ((logins call).next y (i, now)) := by
  have hown := hy.fits i
  rw [hp] at hown
  cases he : y.memory.entry a with
  | some e =>
    rw [he] at hown
    exact absurd hown id
  | none =>
    rw [he] at hown
    have hnew : new.OfLogin (call i).channel .websocket a := hown
    have hentry := Memory.entry_addSession (x := y.memory) hnew.account
    have hnext : (call i).next now y.memory (y.pc i) = (y.memory.addSession new, .setAccount) := by
      rw [hp]
      rfl
    refine hy.next hnext (fun j _ => rfl) nofun ?_ ?_ ?_ ?_ <;> rw [hentry]
    · intro r S hS
      obtain ⟨-, rfl⟩ : y.memory.fresh = r ∧ new = S := by simpa using hS
      exact ⟨hnew.source, hnew.account⟩
    · exact hnew.attached_iff.mpr rfl
    · intro j hj
      have hfit := hy.fits j
      rw [he] at hfit
      exact hfit.publish fun hpub => hj (hy.single he j i hpub (by rw [hp]; trivial))
    · exact fun hnone => by cases hnone

include hy in
theorem loginsKept_of_addSessions {session : Ref} {new : Session C}
    (hp : y.pc i = .addSessions session new) (hkeeps : KeepsLogins call a y (i, now)) :
    LoginsKept call a ((logins call).next y (i, now)) := by
  have hown := hy.fits i
  simp only [KeepsLogins, hp] at hkeeps hown
  cases he : y.memory.entry a with
  | none =>
    rw [he] at hown
    exact absurd hown id
  | some e =>
    rw [he] at hown
    obtain ⟨rfl, hnew⟩ : session = e.1 ∧ new.OfLogin (call i).channel .websocket a := hown
    obtain ⟨-, hS⟩ := Memory.sessions_of_entry he
    have hnext : (call i).next now y.memory (y.pc i) =
        (y.memory.addSessions e.1 new, .updateSession e.1 new) := by
      rw [hp]
      rfl
    refine hy.grow hnext rfl he (Memory.entry_addSessions he) rfl rfl ?_ nofun ⟨rfl, ?_⟩
    · intro j hj hattached
      apply hattached.addSessions
      intro page hpage
      rw [← hS] at hpage ⊢
      exact (hkeeps page hpage).imp_right fun hne => hne j hj
    · exact .inr ⟨_, HashMap.mem_put.mpr (.inl rfl), hnew.session.symm⟩

include hy in
theorem loginsKept_of_updateSession {session : Ref} {new : Session C}
    (hp : y.pc i = .updateSession session new) :
    LoginsKept call a ((logins call).next y (i, now)) := by
  have hown := hy.fits i
  rw [hp] at hown
  cases he : y.memory.entry a with
  | none =>
    rw [he] at hown
    exact absurd hown id
  | some e =>
    rw [he] at hown
    obtain ⟨rfl, hattached⟩ : session = e.1 ∧ e.2.Attached (call i).channel := hown
    have hnext : (call i).next now y.memory (y.pc i) =
        (y.memory.updateSession now e.1, .joinGroup new) := by
      rw [hp]
      rfl
    exact hy.grow hnext rfl he (Memory.entry_updateSession now he (hy.entry e.1 e.2 he).2) rfl rfl
      (fun j _ h => h) nofun hattached

include hchannel hpages haccount in
/-- **A step that keeps the logins** keeps the invariant. -/
theorem loginsKept_next (now : Clock) (hy : LoginsKept call a y)
    (hkeeps : KeepsLogins call a y (i, now)) :
    LoginsKept call a ((logins call).next y (i, now)) := by
  have hown := hy.fits i
  cases hp : y.pc i with
  | heartbeat => exact loginsKept_of_heartbeat haccount hy hp
  | get => exact loginsKept_of_get hpages haccount hy hp hkeeps
  | setSessionContent => exact loginsKept_of_setSessionContent hchannel hpages haccount hy hp hkeeps
  | addSession => exact loginsKept_of_addSession hy hp
  | addSessions => exact loginsKept_of_addSessions hy hp hkeeps
  | updateSession => exact loginsKept_of_updateSession hy hp
  | leaveGroup | remove =>
    rw [hp] at hown
    cases y.memory.entry a <;> exact absurd hown id
  | joinGroup | setAccount | getSession | write | finished =>
    exact loginsKept_of_published hchannel hy (hp ▸ trivial)

end Cases

end Next

/-! ## Runs -/

section Runs

variable [Channel C] {call : ι → Call C} {a : Text} {x : Memory C}

/-- The calls before their first steps. -/
def Memory.loops (x : Memory C) : Loops ι C := ⟨x, fun _ => .heartbeat⟩

theorem loginsKept_loops (hwf : x.server.Wellformed)
    (hws : ∀ S, x.server.sessions a = some S → S.source = .websocket)
    (hnew : ∀ i, x.server.account (call i).channel ≠ some a) :
    LoginsKept call a (x.loops : Loops ι C) where
  start i _ := hnew i
  entry r S h := by
    obtain ⟨hr, rfl⟩ := Memory.sessions_of_entry h
    have hS : x.server.sessions a = some (x.heap r) := congrArg (Option.map x.heap) hr
    exact ⟨hws _ hS, (hwf a _ hS).account⟩
  fits i := by
    show Pc.Fits _ _ (x.entry a) .heartbeat
    cases x.entry a <;> exact trivial
  single _ i j h := absurd h id

variable [DecidableEq C] [DecidableEq ι]

/-- **No login is lost.** Pages of one account log in on different event loops, in any interleaving,
from any reachable state in which the account is absent or belongs to web pages: if all steps keep
the logins, then every page is attached when all calls have finished. -/
theorem attached_of_logins (hchannel : Function.Injective fun i => (call i).channel)
    (hpages : ∀ i, Channel.server (call i).channel = .websocket)
    (haccount : ∀ i, (call i).sessionId = a) (hx : (server C).Reachable .empty x.server)
    (hws : ∀ S, x.server.sessions a = some S → S.source = .websocket)
    (hnew : ∀ i, x.server.account (call i).channel ≠ some a) {es : List (ι × Clock)}
    (hrun : (logins call).Run x.loops es)
    (hkeeps : (logins call).Along (KeepsLogins call a) x.loops es)
    (hdone : ∀ i, ((logins call).exec x.loops es).pc i = .finished) (i : ι) :
    ((logins call).exec x.loops es).memory.server.Attached a (call i).channel := by
  have hstart : LoginsKept call a x.loops :=
    loginsKept_loops (wellformed_of_reachable hx) hws hnew
  have hkept := (hrun.throughout hstart hkeeps fun y e hy _ he =>
    loginsKept_next hchannel hpages haccount e.2 hy he).exec
  have hfits := hkept.fits i
  rw [hdone i] at hfits
  obtain ⟨r, S, hS, hattached⟩ := hfits.attached trivial
  exact (Memory.attached_of_entry hS).mpr hattached

end Runs

/-- The link-keep messages of two pages for the account `"1"`. -/
def pageCall (n : Fin 2) : Call Client :=
  ⟨(Client.page n).ctx, { deviceId := lit "1", type := lit "LK" }⟩

/-- The memory before the first login. -/
def noSessions : Memory Client where
  heap _ :=
    { session := .page 0, nid := [], source := .websocket, deviceId := [], account := []
      platform := [], platformVersion := [], appKey := [], bindTime := 0, updateTime := 0
      sessions := [] }
  fresh := 0
  sessions _ := none
  rest := .empty

theorem pageCall_injective : Function.Injective fun n => (pageCall n).channel := by
  intro m n h
  exact Fin.ext (by simpa [pageCall, Call.channel, Client.ctx] using h)

theorem noSessions_reachable : (server Client).Reachable .empty noSessions.server :=
  ⟨[], trivial, rfl⟩

/-- The second page begins first, and finds the session that the first one has published; from then
on the two logins go on in turn. -/
def inTurn : List (Fin 2 × Clock) :=
  [(1, ⟨0, []⟩), (0, ⟨0, []⟩), (0, ⟨0, []⟩), (0, ⟨0, []⟩), (0, ⟨0, []⟩), (1, ⟨0, []⟩),
    (0, ⟨0, []⟩), (1, ⟨0, []⟩), (0, ⟨0, []⟩), (1, ⟨0, []⟩), (0, ⟨0, []⟩)] ++
    List.replicate 5 (1, ⟨0, []⟩)

theorem attached_of_logins_inTurn :
    ((logins pageCall).exec noSessions.loops inTurn).memory.server.Attached (lit "1")
      (Client.page 0) := by
  refine attached_of_logins pageCall_injective (fun _ => rfl) (fun _ => rfl) noSessions_reachable
    (fun S hS => by cases hS) (fun i => nofun) ?_ ?_ ?_ 0
  · exact ⟨nofun, nofun, nofun, nofun, nofun, nofun, nofun, nofun, nofun, nofun, nofun, nofun,
      nofun, nofun, nofun, nofun, trivial⟩
  · refine ⟨trivial, trivial, ?_, nofun, trivial, nofun, trivial, nofun, trivial, nofun, trivial,
      trivial, trivial, trivial, trivial, trivial, trivial⟩
    intro _ j hj
    match j with
    | 0 => exact absurd rfl hj
    | 1 => exact id
  · intro i
    match i with
    | 0 | 1 => rfl

/-- Both pages find the account absent before either of them adds its session. -/
def bothAbsent : List (Fin 2 × Clock) :=
  List.replicate 2 (0, ⟨0, []⟩) ++ List.replicate 2 (1, ⟨0, []⟩) ++ List.replicate 5 (0, ⟨0, []⟩) ++
    List.replicate 5 (1, ⟨0, []⟩)

/-- **The login of the first page is lost** when the second one publishes its session. -/
theorem login_lost : (logins pageCall).Run noSessions.loops bothAbsent ∧
    (∀ i, ((logins pageCall).exec noSessions.loops bothAbsent).pc i = .finished) ∧
    ¬ ((logins pageCall).exec noSessions.loops bothAbsent).memory.server.Attached (lit "1")
      (Client.page 0) := by
  refine ⟨?_, ?_, ?_⟩
  · exact ⟨nofun, nofun, nofun, nofun, nofun, nofun, nofun, nofun, nofun, nofun, nofun, nofun,
      nofun, nofun, trivial⟩
  · intro i
    match i with
    | 0 | 1 => rfl
  · rintro ⟨S, hS, hc⟩
    obtain rfl := Option.some.inj hS
    rcases hc with hc | ⟨p, hp, -⟩
    · cases hc
    · cases hp

end NettyTcpWeb
