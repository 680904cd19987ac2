import NettyTcpWeb.Server.Registry

/-!
# What the server notes about a channel

Besides the logins, the server notes two things about a channel: the stamp of its last heartbeat
and, on the WebSocket side, a copy of its last message. Idle events read both. Logging in and
closing a channel change neither, so a stamp changes only with a link-keep message of its channel
and when the channel is idle.

## Main definitions

* `Server.SameNotes`: two states with the same stamps and the same copies
* `Event.beat`: the time that an event notes as the last heartbeat of a channel
* `Event.Touches`: the events that may change the stamp of a channel

## Main results

* `step_linkKeep_notes`, `step_message_notes`, `step_readerIdle_notes`: what an event changes in the
  notes
* `heartbeat_of_beat`, `heartbeat_of_readerIdle`, `heartbeat_of_not_touches`: what an event does to
  the stamp of a channel
-/

namespace NettyTcpWeb

open Java (Text lit)
open StateExcept
open Server (OnlyWrites)

variable {C : Type}

/-- Two states with the same stamps and the same copies of messages. -/
def Server.SameNotes (s t : Server C) : Prop := t.heartbeat = s.heartbeat ∧ t.builder = s.builder

namespace Server.SameNotes

theorem refl (s : Server C) : s.SameNotes s := ⟨rfl, rfl⟩

variable {s t u : Server C}

theorem trans (hst : s.SameNotes t) (htu : t.SameNotes u) : s.SameNotes u :=
  ⟨htu.1.trans hst.1, htu.2.trans hst.2⟩

theorem of_onlyWrites (h : s.OnlyWrites t) : s.SameNotes t := ⟨h.heartbeat, h.builder⟩

theorem push (s : Server C) (account : Text) (msg : Model) : s.SameNotes (s.push account msg) := by
  unfold Server.push
  cases s.sessions account <;> exact refl s

theorem setHeartbeat [DecidableEq C] (h : s.SameNotes t) (c : C) (stamp : Option Int) :
    (s.setHeartbeat c stamp).SameNotes (t.setHeartbeat c stamp) := by
  refine ⟨?_, h.2⟩
  simp only [Server.setHeartbeat, h.1]

end Server.SameNotes

open Server (SameNotes)

variable [DecidableEq C]

theorem evict_notes (s : Server C) (d : Text) (source : Source) :
    s.SameNotes (s.evict d source) := by
  obtain h | ⟨S, -, -, h⟩ := evict_cases s d source
  · rw [h]
    exact .refl s
  · rw [h]
    exact .refl s

variable [Channel C]

theorem Login.notes {s t : Server C} {ctx : ChannelHandlerContext C} {source : Source} {d : Text}
    {msg : Model} (h : Login s ctx source d msg t) : s.SameNotes t := by
  cases h with
  | reconnect h => exact .push s d msg
  | unknown h haddr => exact evict_notes s d source
  | session new h haddr hnone hnew => exact (evict_notes s d source).trans (.push _ d msg)
  | page S new now h haddr hS hws hsource hnew => exact .trans (.refl s) (.push _ d msg)

theorem Closing.notes {s t : Server C} {c : C} (h : Closing s c t) : s.SameNotes t := by
  cases h <;> exact .refl s

/-! ## The notes behind an event -/

section Step

variable {s : Server C} (hwf : s.Wellformed) (ctx : ChannelHandlerContext C) (now : Clock)

theorem remember_notes (c : C) (m : Model) :
    (s.remember c m).SameNotes (Server.remember { s with out := [] } c m) := by
  unfold Server.remember
  cases Channel.server c <;> exact ⟨rfl, rfl⟩

theorem step_message_notes {m : Model} (hLK : m.type ≠ lit "LK") :
    (s.remember ctx.channel m).SameNotes (step s (.message ctx now m)) :=
  (remember_notes ctx.channel m).trans (.of_onlyWrites (writes_message _ ctx now hLK))

theorem step_writerIdle_heartbeat : (step s (.writerIdle ctx now)).heartbeat =
    Function.update s.heartbeat ctx.channel (some now.millis) :=
  (handle_writerIdle { s with out := [] } ctx now).heartbeat

include hwf

/-- A link-keep message sets the stamp. -/
theorem step_linkKeep_notes {m : Model} (hLK : m.type = lit "LK") :
    ((s.remember ctx.channel m).setHeartbeat ctx.channel (some now.millis)).SameNotes
      (step s (.message ctx now m)) := by
  have hremember := (remember_notes (s := s) ctx.channel m).setHeartbeat ctx.channel
    (some now.millis)
  exact hremember.trans (step_linkKeep_login hwf ctx now hLK).notes

/-- A reader-idle event clears the stamp, unless the close raises: then it stays. -/
theorem step_readerIdle_notes :
    (ReachesClose s (.readerIdle ctx now) ∧ s.account ctx.channel = none ∧
        s.SameNotes (step s (.readerIdle ctx now))) ∨
      (s.setHeartbeat ctx.channel none).SameNotes (step s (.readerIdle ctx now)) := by
  let s₀ : Server C := { s with out := [] }
  by_cases hreach : ReachesClose s (.readerIdle ctx now)
  · cases ha : s.account ctx.channel with
    | none =>
      rw [step, handle_readerIdle_of_no_account (s := s₀) hreach ha]
      exact .inl ⟨hreach, rfl, .refl s⟩
    | some a =>
      obtain ⟨t, hhandle, hclosing⟩ := handle_readerIdle_of_account (s := s₀) hwf hreach ha
      rw [step, hhandle]
      exact .inr (hclosing.notes.setHeartbeat ctx.channel none)
  · rw [step, handle_readerIdle_of_not_expired (s := s₀) hreach]
    exact .inr ⟨rfl, rfl⟩

theorem step_channelInactive_notes : s.SameNotes (step s (.channelInactive ctx now)) := by
  rw [step_channelInactive]
  split_ifs
  · exact (close_closing now ctx (hwf.meets (.channelInactive ctx now))).notes
  · exact .refl s

end Step

/-! ## The stamp of a channel -/

/-- The time that an event notes as the last heartbeat of a channel: a link-keep message of it has
been received, or a heartbeat is to be sent to it. -/
def Event.beat (c : C) : Event C → Option Int
  | .message ctx now m => if ctx.channel = c ∧ m.type = lit "LK" then some now.millis else none
  | .writerIdle ctx now => if ctx.channel = c then some now.millis else none
  | _ => none

omit [Channel C] in
theorem Event.beat_cases {e : Event C} {c : C} {t : Int} (h : e.beat c = some t) :
    (∃ ctx now m, e = .message ctx now m ∧ ctx.channel = c ∧ m.type = lit "LK" ∧
      now.millis = t) ∨ ∃ ctx now, e = .writerIdle ctx now ∧ ctx.channel = c ∧ now.millis = t := by
  cases e with
  | message ctx now m =>
    obtain ⟨⟨hc, hLK⟩, ht⟩ : (ctx.channel = c ∧ m.type = lit "LK") ∧ now.millis = t := by
      simpa [Event.beat] using h
    exact .inl ⟨ctx, now, m, rfl, hc, hLK, ht⟩
  | writerIdle ctx now =>
    obtain ⟨hc, ht⟩ : ctx.channel = c ∧ now.millis = t := by simpa [Event.beat] using h
    exact .inr ⟨ctx, now, rfl, hc, ht⟩
  | readerIdle | disconnect | channelInactive => cases h

/-- The events that may change the stamp of a channel. -/
def Event.Touches (c : C) : Event C → Prop
  | .readerIdle ctx _ => ctx.channel = c
  | e => e.beat c ≠ none

section Stamp

variable {s : Server C} (hwf : s.Wellformed) {e : Event C} {c : C}

include hwf

theorem heartbeat_of_beat {t : Int} (h : e.beat c = some t) :
    (step s e).heartbeat c = some t := by
  obtain ⟨ctx, now, m, rfl, rfl, hLK, rfl⟩ | ⟨ctx, now, rfl, rfl, rfl⟩ := Event.beat_cases h
  · rw [(step_linkKeep_notes hwf ctx now hLK).1]
    exact Function.update_self _ _ _
  · rw [step_writerIdle_heartbeat, Function.update_self]

theorem heartbeat_of_not_touches (h : ¬ e.Touches c) :
    (step s e).heartbeat c = s.heartbeat c := by
  cases e with
  | message ctx now m =>
    by_cases hLK : m.type = lit "LK"
    · have hne : ctx.channel ≠ c := by simpa [Event.Touches, Event.beat, hLK] using h
      rw [(step_linkKeep_notes hwf ctx now hLK).1, remember_eq]
      exact Function.update_of_ne hne.symm _ _
    · rw [(step_message_notes ctx now hLK).1, remember_eq]
  | writerIdle ctx now =>
    have hne : ctx.channel ≠ c := by simpa [Event.Touches, Event.beat] using h
    rw [step_writerIdle_heartbeat, Function.update_of_ne hne.symm]
  | readerIdle ctx now =>
    have hne : ctx.channel ≠ c := h
    rcases step_readerIdle_notes hwf ctx now with ⟨-, -, hnotes⟩ | hnotes
    · rw [hnotes.1]
    · rw [hnotes.1]
      exact Function.update_of_ne hne.symm _ _
  | disconnect d => rfl
  | channelInactive ctx now => exact congrFun (step_channelInactive_notes hwf ctx now).1 c

/-- A stamp that a reader-idle event leaves was there before, and has expired. -/
theorem reachesClose_of_heartbeat {ctx : ChannelHandlerContext C} {now : Clock} {t : Int}
    (h : (step s (.readerIdle ctx now)).heartbeat ctx.channel = some t) :
    ReachesClose s (.readerIdle ctx now) ∧ s.heartbeat ctx.channel = some t := by
  rcases step_readerIdle_notes hwf ctx now with ⟨hreach, -, hnotes⟩ | hnotes
  · exact ⟨hreach, hnotes.1 ▸ h⟩
  · rw [hnotes.1, Server.setHeartbeat_heartbeat, Function.update_self] at h
    cases h

end Stamp

/-- Events that do not touch a stamp keep it. -/
theorem heartbeat_exec {s : Server C} (hwf : s.Wellformed) {c : C} {es : List (Event C)}
    (h : ∀ e ∈ es, ¬ e.Touches c) : ((server C).exec s es).heartbeat c = s.heartbeat c := by
  induction es generalizing s with
  | nil => rfl
  | cons e es ih =>
    have hrest := ih (hwf.step e) fun e' he' => h e' (List.mem_cons_of_mem _ he')
    exact hrest.trans (heartbeat_of_not_touches hwf (h e List.mem_cons_self))

end NettyTcpWeb
