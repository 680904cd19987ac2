import NettyTcpWeb.Server.Connertor

/-!
# The stored sessions

Every session that the server stores has the same shape: it is the session of a login, and on the
WebSocket side it may hold the logins of further pages, which hold none themselves. A message to a
session is therefore written to the channels the session reaches, and to those that are open.

## Main definitions

* `Session.OfLogin`, `Session.Wellformed`, `Server.Wellformed`: the shape of the stored sessions
* `Session.channels`: the channels `Session.write` writes to, in its order
* `Server.deliver`, `Server.push`: a message written to channels, and to the session of an account

## Main results

* `Session.mem_channels`: a well-formed session writes to the channels it reaches
* `Session.write_apply`, `pushMessage_apply`, `pushMessageTo_of_some`: what these functions write
-/

namespace NettyTcpWeb

open Java (Text Exception)
open StateExcept

variable {C : Type}

/-! ## The shape of a session -/

/-- The session of a channel that has just logged in. -/
structure Session.OfLogin [Channel C] (S : Session C) (c : C) (source : Source) (account : Text) :
    Prop where
  session : S.session = c
  nid : S.nid = Channel.asShortText c
  source : S.source = source
  account : S.account = account
  sessions : S.sessions = []

/-- The shape of the session stored under an account: the session of some login, with the logins of
further pages, each under its own short id, on the WebSocket side only. -/
structure Session.Wellformed [Channel C] (S : Session C) (key : Text) : Prop where
  account : S.account = key
  nid : S.nid = Channel.asShortText S.session
  socket : S.source = .socket → S.sessions = []
  page : ∀ e ∈ S.sessions, e.1 = Channel.asShortText e.2.session ∧
    e.2.OfLogin e.2.session .websocket key
  nodup : (S.sessions.map Prod.fst).Nodup

/-- Every stored session is well formed. -/
def Server.Wellformed [Channel C] (s : Server C) : Prop :=
  ∀ key S, s.sessions key = some S → S.Wellformed key

theorem Source.eq_websocket {source : Source} (h : source ≠ .socket) : source = .websocket := by
  cases source with
  | socket => exact absurd rfl h
  | websocket => rfl

theorem Session.OfLogin.wellformed [Channel C] {S : Session C} {c : C} {source : Source}
    {key : Text} (h : S.OfLogin c source key) : S.Wellformed key where
  account := h.account
  nid := h.nid.trans (congrArg _ h.session.symm)
  socket _ := h.sessions
  page := by simp [h.sessions]
  nodup := by simp [h.sessions]

theorem Session.OfLogin.attached_iff [Channel C] {S : Session C} {c x : C} {source : Source}
    {key : Text} (h : S.OfLogin c source key) : S.Attached x ↔ x = c := by
  simp [Session.Attached, h.session, h.sessions]

theorem Session.without_eq_self {S : Session C} {nid : Text}
    (h : HashMap.get S.sessions nid = none) : S.without nid = S := by
  rw [Session.without, HashMap.remove_of_get_eq_none h]
  cases S
  rfl

/-! ## Writing to a session -/

mutual

/-- The channels `Session.write` writes to, in its order. -/
def Session.channels : Session C → List C
  | ⟨session, _, _, _, _, _, _, _, _, _, sessions⟩ => Session.pageChannels sessions ++ [session]

/-- The channels of the loop over the pages. -/
def Session.pageChannels : List (Text × Session C) → List C
  | [] => []
  | (_, page) :: rest => page.channels ++ Session.pageChannels rest

end

theorem Session.channels_eq (S : Session C) :
    S.channels = Session.pageChannels S.sessions ++ [S.session] := by
  cases S
  rw [Session.channels]

/-- Pages without pages of their own contribute their own channels only. -/
theorem Session.pageChannels_eq_map {pages : List (Text × Session C)}
    (h : ∀ e ∈ pages, e.2.sessions = []) :
    Session.pageChannels pages = pages.map fun e => e.2.session := by
  induction pages with
  | nil => rfl
  | cons e rest ih =>
    obtain ⟨nid, page⟩ := e
    have hpage : page.sessions = [] := h _ List.mem_cons_self
    rw [Session.pageChannels, Session.channels_eq, hpage, Session.pageChannels,
      ih fun e he => h e (List.mem_cons_of_mem _ he)]
    rfl

/-- The pages of a well-formed session have no pages of their own. -/
theorem Session.Wellformed.channels_eq [Channel C] {S : Session C} {key : Text}
    (h : S.Wellformed key) : S.channels = (S.sessions.map fun e => e.2.session) ++ [S.session] := by
  rw [Session.channels_eq, Session.pageChannels_eq_map fun e he => (h.page e he).2.sessions]

theorem Session.mem_channels [Channel C] {S : Session C} {key : Text} (h : S.Wellformed key)
    {c : C} : c ∈ S.channels ↔ S.Attached c := by
  simp only [h.channels_eq, List.mem_append, List.mem_map, List.mem_singleton, Session.Attached,
    or_comm, eq_comm]

/-- `Session.write` writes to the channels of `Session.getSessionAll`, in another order. -/
theorem Session.Wellformed.perm_getSessionAll [Channel C] {S : Session C} {key : Text}
    (h : S.Wellformed key) : S.channels.Perm S.getSessionAll := by
  rw [h.channels_eq, Session.getSessionAll]
  exact List.perm_append_singleton _ _

namespace Server

variable (s : Server C)

/-- A message written to each of the channels that is open. -/
@[simps] def deliver (channels : List C) (msg : Model) : Server C :=
  { s with out := s.out ++ (channels.filter (s.channel · = .opened)).map (.write · msg) }

theorem deliver_deliver (cs ds : List C) (msg : Model) :
    (s.deliver cs msg).deliver ds msg = s.deliver (cs ++ ds) msg := by
  simp only [deliver, List.filter_append, List.map_append, List.append_assoc]
  rfl

theorem deliver_singleton (c : C) (msg : Model) : s.deliver [c] msg = s.writeAndFlush c msg := by
  by_cases h : s.channel c = .opened <;> simp [deliver, writeAndFlush, h]

/-- One write for each of the channels. -/
theorem foldl_writeAndFlush (cs : List C) (msg : Model) :
    cs.foldl (fun t c => t.writeAndFlush c msg) s = s.deliver cs msg := by
  induction cs generalizing s with
  | nil => simp [deliver]
  | cons c cs ih =>
    rw [List.foldl_cons, ih, ← deliver_singleton, deliver_deliver, List.singleton_append]

/-- A message written to the session of an account, if there is one. -/
def push (account : Text) (msg : Model) : Server C :=
  match s.sessions account with
  | none => s
  | some S => s.deliver S.channels msg

section Push

variable (account : Text) (msg : Model)

@[simp] theorem push_sessions : (s.push account msg).sessions = s.sessions := by
  unfold push
  cases s.sessions account <;> rfl

@[simp] theorem push_group : (s.push account msg).group = s.group := by
  unfold push
  cases s.sessions account <;> rfl

@[simp] theorem push_account : (s.push account msg).account = s.account := by
  unfold push
  cases s.sessions account <;> rfl

@[simp] theorem push_channel : (s.push account msg).channel = s.channel := by
  unfold push
  cases s.sessions account <;> rfl

end Push

theorem store_self {a : Text} {S : Session C} (hS : s.sessions a = some S) : s.store a S = s := by
  simp only [store, ← hS, Function.update_eq_self]

end Server

mutual

/-- Writing to a session never raises: a write to a closed channel is lost. -/
theorem Session.write_apply (msg : Model) : (S : Session C) → (s : Server C) →
    S.write msg s = .ok () (s.deliver S.channels msg)
  | ⟨session, _, _, _, _, _, _, _, _, _, sessions⟩, s => by
    simp [Session.write, Session.writePages_apply msg sessions s, Session.channels,
      ← Server.deliver_deliver, Server.deliver_singleton]

theorem Session.writePages_apply (msg : Model) : (pages : List (Text × Session C)) →
    (s : Server C) →
    Session.writePages msg pages s = .ok () (s.deliver (Session.pageChannels pages) msg)
  | [], s => by simp [Session.writePages, Session.pageChannels, Server.deliver]
  | (_, page) :: rest, s => by
    simp [Session.writePages, Session.write_apply msg page, Session.pageChannels,
      Session.writePages_apply msg rest, Server.deliver_deliver]

end

@[simp] theorem raising_ok {α : Type} (a : α) (s : Server C) :
    raising (.ok a) s = .ok a s := rfl

@[simp] theorem raising_error {α : Type} (e : Exception) (s : Server C) :
    (raising (.error e) : Handler C α) s = .error e s := rfl

theorem getSession_some (d : Text) (s : Server C) :
    getSession (some d) s = .ok (s.sessions d) s := rfl

theorem pushMessage_apply {w : MessageWrapper} {d : Text} {msg : Model}
    (hd : w.sessionId = some d) (hmsg : w.body = some msg) (s : Server C) :
    pushMessage w s = .ok () (s.push d msg) := by
  simp only [pushMessage, tryCatch_apply, bind_apply, hd, getSession_some, hmsg, Server.push]
  cases s.sessions d with
  | none => rfl
  | some S => simp [Session.write_apply]

/-- A reply of an account that is logged in is written to the session of its receiver. -/
theorem pushMessageTo_of_some {w : MessageWrapper} {d r : Text} {msg : Model} {S : Session C}
    {s : Server C} (hr : w.reSessionId = some r) (hmsg : w.body = some msg)
    (hS : s.sessions d = some S) : pushMessageTo (some d) w s = .ok () (s.push r msg) := by
  simp only [pushMessageTo, bind_apply, getSession_some, hS, tryCatch_apply, hr, hmsg, Server.push]
  cases s.sessions r with
  | none => rfl
  | some R => simp [Session.write_apply]

theorem pushMessageTo_of_none {w : MessageWrapper} {d : Text} {s : Server C}
    (hnone : s.sessions d = none) : pushMessageTo (some d) w s = .error .runtime s := by
  simp [pushMessageTo, getSession_some, hnone]

theorem Server.write_mem_push {s : Server C} {r : Text} {msg : Model} {S : Session C} {c : C}
    (hS : s.sessions r = some S) (hc : c ∈ S.channels) (hopen : s.channel c = .opened) :
    .write c msg ∈ (s.push r msg).out := by
  simp only [Server.push, hS, Server.deliver_out]
  refine List.mem_append_right _ (List.mem_map_of_mem (List.mem_filter.mpr ⟨hc, ?_⟩))
  exact decide_eq_true hopen

/-- A push writes its message to the open channels of a session, and writes nothing else. -/
theorem Server.mem_push_out {s : Server C} {r : Text} {msg : Model} {o : Output C}
    (h : o ∈ (s.push r msg).out) : o ∈ s.out ∨
      ∃ c S, o = .write c msg ∧ s.channel c = .opened ∧ s.sessions r = some S ∧ c ∈ S.channels := by
  unfold Server.push at h
  cases hS : s.sessions r with
  | none =>
    rw [hS] at h
    exact .inl h
  | some S =>
    simp only [hS, Server.deliver, List.mem_append, List.mem_map, List.mem_filter,
      decide_eq_true_eq] at h
    obtain h | ⟨c, ⟨hc, hopen⟩, rfl⟩ := h
    · exact .inl h
    · exact .inr ⟨c, S, rfl, hopen, rfl, hc⟩

/-- What is pushed to an account is written to the open channels of its session. -/
theorem Server.mem_push {s : Server C} {r : Text} {msg msg' : Model} {c : C}
    (h : .write c msg' ∈ (s.push r msg).out) : .write c msg' ∈ s.out ∨
      s.channel c = .opened ∧ msg' = msg ∧ ∃ S, s.sessions r = some S ∧ c ∈ S.channels := by
  rcases Server.mem_push_out h with h | ⟨c', S, ho, hopen, hS, hc⟩
  · exact .inl h
  · obtain ⟨rfl, rfl⟩ := Output.write.inj ho
    exact .inr ⟨hopen, rfl, S, hS, hc⟩

end NettyTcpWeb
