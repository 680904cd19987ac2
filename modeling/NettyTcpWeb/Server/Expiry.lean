import NettyTcpWeb.Server.Idle
import NettyTcpWeb.Server.Routing

/-!
# Closing idle channels

A reader-idle event closes its channel if the stamp of the channel has expired. The time after
which it has is declared in seconds and compared with milliseconds, so a channel is closed too early
unless its reader-idle events come at once or late enough. The close goes through the account of the
channel and the session of the account. So it raises without an account, and it closes nothing, or
another channel, where the session does not lead back to the channel.

## Main definitions

* `Ascending`: the clock readings of each channel do not decrease
* `NoEarlyKick`: a stamp has expired only when thirty seconds have passed
* `Timely`: the first reader-idle event behind a heartbeat comes at once or late enough
* `LastBeat`: the last heartbeat of a channel among the past events
* `IdleClosed`: an idle channel is closed, and its stamp is cleared

## Main results

* `noEarlyKick_iff`: **the runs in which no channel is closed too early**
* `idleClosed_iff`: **the channels that an expired stamp closes**
-/

namespace NettyTcpWeb

open Java (Text lit)
open StateExcept

variable {C : Type}

/-! ## Early kicks -/

/-- The clock reading of an event. -/
def Event.time : Event C → Option Int
  | .message _ now _ | .writerIdle _ now | .readerIdle _ now | .channelInactive _ now => now.millis
  | .disconnect _ => none

section Kick

variable [DecidableEq C]

/-- The clock readings of each channel do not decrease. -/
def Ascending (es : List (Event C)) : Prop :=
  es.Pairwise fun e f => e.channel = f.channel → ∀ t ∈ e.time, ∀ u ∈ f.time, t ≤ u

theorem Event.beat_eq_some {e : Event C} {c : C} {t : Int} (h : e.beat c = some t) :
    e.channel = c ∧ e.time = some t := by
  obtain ⟨ctx, now, m, rfl, rfl, -, rfl⟩ | ⟨ctx, now, rfl, rfl, rfl⟩ := Event.beat_cases h
  · exact ⟨rfl, rfl⟩
  · exact ⟨rfl, rfl⟩

/-- What touches a stamp without a heartbeat is a reader-idle event. -/
theorem Event.Touches.exists_readerIdle {e : Event C} {c : C} (h : e.Touches c)
    (hbeat : e.beat c = none) : ∃ ctx now, e = .readerIdle ctx now ∧ ctx.channel = c := by
  cases e with
  | readerIdle ctx now => exact ⟨ctx, now, rfl, h⟩
  | message | writerIdle | disconnect | channelInactive => exact absurd hbeat h

/-- The first reader-idle event behind a heartbeat of its channel comes within `PING_TIME_OUT`
milliseconds, or not before `PING_TIME_OUT` seconds have passed. -/
def Timely (es : List (Event C)) : Prop :=
  ∀ xs b ys ctx now t, xs ++ b :: ys ++ [.readerIdle ctx now] <+: es →
    b.beat ctx.channel = some t → (∀ e ∈ ys, ¬ e.Touches ctx.channel) →
      now.millis - t < pingTimeOut ∨ 1000 * pingTimeOut ≤ now.millis - t

theorem Timely.of_prefix {xs es : List (Event C)} (h : Timely es) (hxs : xs <+: es) : Timely xs :=
  fun us b ys ctx now t hsplit => h us b ys ctx now t (hsplit.trans hxs)

/-- The last heartbeat of the channel among the past events was noted at `t`. If a reader-idle event
has come since, then one of them has found that `PING_TIME_OUT` seconds had passed. -/
def LastBeat (es : List (Event C)) (c : C) (t : Int) : Prop :=
  ∃ xs b ys, es = xs ++ b :: ys ∧ b.beat c = some t ∧ (∀ e ∈ ys, e.beat c = none) ∧
    ((∀ e ∈ ys, ¬ e.Touches c) ∨ ∃ ctx now, .readerIdle ctx now ∈ ys ∧ ctx.channel = c ∧
      1000 * pingTimeOut ≤ now.millis - t)

section LastBeat

variable {es : List (Event C)} {e : Event C} {c : C} {t : Int}

theorem lastBeat_of_beat (es : List (Event C)) (h : e.beat c = some t) :
    LastBeat (es ++ [e]) c t :=
  ⟨es, e, [], rfl, h, by simp, .inl (by simp)⟩

theorem LastBeat.not_touches (h : LastBeat es c t) (htouch : ¬ e.Touches c)
    (hbeat : e.beat c = none) : LastBeat (es ++ [e]) c t := by
  obtain ⟨xs, b, ys, rfl, hb, hys, hrest⟩ := h
  refine ⟨xs, b, ys ++ [e], by simp, hb,
    List.forall_mem_append.mpr ⟨hys, List.forall_mem_singleton.mpr hbeat⟩, ?_⟩
  rcases hrest with hrest | ⟨ctx, now, hmem, hc, hlate⟩
  · exact .inl (List.forall_mem_append.mpr ⟨hrest, List.forall_mem_singleton.mpr htouch⟩)
  · exact .inr ⟨ctx, now, List.mem_append_left _ hmem, hc, hlate⟩

/-- A reader-idle event of a timely run that finds the stamp expired finds that the seconds have
passed. -/
theorem LastBeat.readerIdle {ctx : ChannelHandlerContext C} {now : Clock}
    (h : LastBeat es ctx.channel t) (htimely : Timely (es ++ [.readerIdle ctx now]))
    (hexpired : pingTimeOut ≤ now.millis - t) :
    LastBeat (es ++ [.readerIdle ctx now]) ctx.channel t := by
  obtain ⟨xs, b, ys, rfl, hb, hys, hrest⟩ := h
  refine ⟨xs, b, ys ++ [.readerIdle ctx now], by simp, hb,
    List.forall_mem_append.mpr ⟨hys, List.forall_mem_singleton.mpr rfl⟩, .inr ?_⟩
  rcases hrest with hrest | ⟨ctx', now', hmem, hc, hlate⟩
  · have htime := htimely xs b ys ctx now t (List.prefix_refl _) hb hrest
    exact ⟨ctx, now, by simp, rfl, htime.resolve_left (by omega)⟩
  · exact ⟨ctx', now', List.mem_append_left _ hmem, hc, hlate⟩

end LastBeat

variable [Channel C]

/-- A reader-idle event reaches the close only with a stamp that some heartbeat of the channel has
left, and when all its heartbeats are `PING_TIME_OUT` seconds ago. -/
def NoEarlyKick (es : List (Event C)) : Prop :=
  ∀ xs ctx now, xs ++ [.readerIdle ctx now] <+: es →
    ReachesClose ((server C).exec .empty xs) (.readerIdle ctx now) →
      ∃ lastTime, ((server C).exec .empty xs).heartbeat ctx.channel = some lastTime ∧
        (∃ b ∈ xs, b.beat ctx.channel = some lastTime) ∧
        ∀ b ∈ xs, ∀ t ∈ b.beat ctx.channel, 1000 * pingTimeOut ≤ now.millis - t

/-- In a timely run a stamp is that of the last heartbeat. -/
theorem lastBeat_of_heartbeat {es : List (Event C)} {c : C} {t : Int} (htimely : Timely es)
    (h : ((server C).exec .empty es).heartbeat c = some t) : LastBeat es c t := by
  refine past_of_step (R := fun es s => Timely es → s.heartbeat c = some t → LastBeat es c t)
    ?_ ?_ es htimely h
  · intro _ h
    cases h
  · intro es s e hwf ih htimely h
    have ih := ih (htimely.of_prefix (List.prefix_append _ _))
    cases hbeat : e.beat c with
    | some t' =>
      obtain rfl : t' = t := Option.some.inj ((heartbeat_of_beat hwf hbeat).symm.trans h)
      exact lastBeat_of_beat es hbeat
    | none =>
      by_cases htouch : e.Touches c
      · obtain ⟨ctx, now, rfl, rfl⟩ := htouch.exists_readerIdle hbeat
        obtain ⟨⟨lastTime, hlast, hexpired⟩, hstamp⟩ := reachesClose_of_heartbeat hwf h
        obtain rfl : lastTime = t := Option.some.inj (hlast.symm.trans hstamp)
        exact (ih hstamp).readerIdle htimely hexpired
      · rw [heartbeat_of_not_touches hwf htouch] at h
        exact (ih h).not_touches htouch hbeat

/-- **The runs in which no channel is closed too early.** -/
theorem noEarlyKick_iff {es : List (Event C)} (h : Ascending es) : NoEarlyKick es ↔ Timely es := by
  constructor
  · intro hkick xs b ys ctx now t hsplit hb hys
    by_cases hexpired : pingTimeOut ≤ now.millis - t
    · have hwf := wellformed_exec (wellformed_empty (C := C)) xs
      have hexec : (server C).exec .empty (xs ++ b :: ys) =
          (server C).exec (step ((server C).exec .empty xs) b) ys := Automaton.exec_append
      have hstamp : ((server C).exec .empty (xs ++ b :: ys)).heartbeat ctx.channel = some t := by
        rw [hexec, heartbeat_exec (hwf.step b) hys, heartbeat_of_beat hwf hb]
      obtain ⟨-, -, -, hall⟩ := hkick _ ctx now hsplit ⟨t, hstamp, hexpired⟩
      exact .inr (hall b (by simp) t hb)
    · exact .inl (not_le.mp hexpired)
  · rintro htimely xs ctx now hsplit ⟨t, hstamp, hexpired⟩
    have hxs := htimely.of_prefix ((List.prefix_append _ _).trans hsplit)
    obtain ⟨us, b, ys, rfl, hb, hys, hrest⟩ := lastBeat_of_heartbeat hxs hstamp
    obtain ⟨hbefore, -, hlast⟩ := List.pairwise_append.mp (h.sublist hsplit.sublist)
    have hlate : 1000 * pingTimeOut ≤ now.millis - t := by
      rcases hrest with hrest | ⟨ctx', now', hmem, hc, hlate⟩
      · exact (htimely us b ys ctx now t hsplit hb hrest).resolve_left (by omega)
      · have hle : now'.millis ≤ now.millis := hlast (.readerIdle ctx' now') (by simp [hmem])
          (.readerIdle ctx now) List.mem_cons_self hc _ rfl _ rfl
        omega
    refine ⟨t, hstamp, ⟨b, by simp, hb⟩, fun e he u hu => ?_⟩
    have hchannel := Event.beat_eq_some hb
    have hchannel' := Event.beat_eq_some hu
    rcases List.mem_append.mp he with he | he
    · have hle : u ≤ t := (List.pairwise_append.mp hbefore).2.2 e he b List.mem_cons_self
        (hchannel'.1.trans hchannel.1.symm) u hchannel'.2 t hchannel.2
      omega
    · rcases List.mem_cons.mp he with rfl | he
      · obtain rfl : t = u := Option.some.inj (hb.symm.trans hu)
        exact hlate
      · cases (hys e he).symm.trans hu

end Kick

/-- A watch that sends nothing after its login gets a heartbeat after a hundred seconds, and its
reader is idle after two minutes. -/
def kicked : List (Event Client) :=
  [(Client.watch 0).linkKeep (lit "1"), .writerIdle (Client.watch 0).ctx ⟨100000, []⟩,
    .readerIdle (Client.watch 0).ctx ⟨120000, []⟩]

theorem ascending_kicked : Ascending kicked := by
  simp [Ascending, kicked, Event.time, Client.linkKeep]

theorem noEarlyKick_iff_kicked : NoEarlyKick kicked ↔ Timely kicked :=
  noEarlyKick_iff ascending_kicked

/-- **A watch is closed twenty seconds after its heartbeat.** -/
theorem kicked_too_early :
    (server Client).Run .empty kicked ∧ Ascending kicked ∧
      ((server Client).exec .empty kicked).channel (.watch 0) = .closed ∧ ¬ NoEarlyKick kicked := by
  refine ⟨⟨rfl, rfl, rfl, trivial⟩, ascending_kicked, rfl, ?_⟩
  intro h
  obtain ⟨-, -, -, hall⟩ := h (kicked.take 2) _ _ (List.prefix_refl kicked)
    ⟨100000, rfl, by decide⟩
  exact absurd (hall (.writerIdle (Client.watch 0).ctx ⟨100000, []⟩) (by simp [kicked]) 100000 rfl)
    (by decide)

/-! ## Closing an idle channel -/

section Close

variable [DecidableEq C] [Channel C] {s t : Server C} {a : Text} {S : Session C} {c : C}

/-- The session is that of the channel, or the channel is one of its pages and has another short id
than the session. -/
def Session.LeadsTo (S : Session C) (c : C) : Prop :=
  S.session = c ∨ S.nid ≠ Channel.asShortText c ∧ ∃ p ∈ S.sessions, p.2.session = c

omit [DecidableEq C] in
/-- A close for a channel closes it exactly if the session leads back to the channel. -/
theorem Session.Wellformed.closing_iff (hwf : S.Wellformed a) :
    (∃ S', S.closing (Channel.asShortText c) = some (c, S')) ↔ S.LeadsTo c := by
  constructor
  · rintro ⟨S', h⟩
    obtain ⟨rfl, -, -⟩ | ⟨-, hnid, page, hpage, rfl, -⟩ := Session.closing_cases h
    · exact .inl rfl
    · exact .inr ⟨hnid, _, hpage, rfl⟩
  · rintro (rfl | ⟨hnid, p, hp, rfl⟩)
    · exact ⟨S, if_pos (.inr hwf.nid)⟩
    · have hkey := (hwf.page p hp).1
      cases h : S.closing (Channel.asShortText p.2.session) with
      | none => exact absurd (.inr ⟨p, hp, rfl⟩) (hwf.not_attached h)
      | some left =>
        obtain ⟨y, S'⟩ := left
        obtain ⟨-, -, hsocket | hown⟩ | ⟨-, -, page, hpage, rfl, -⟩ := Session.closing_cases h
        · rw [hwf.socket hsocket] at hp
          cases hp
        · exact absurd hown hnid
        · rw [← hkey] at hpage
          obtain rfl : page = p.2 := HashMap.eq_of_mem hwf.nodup hpage hp
          exact ⟨S', rfl⟩

omit [Channel C] in
theorem closeChannel_closed_iff {y : C} (hopen : s.channel c = .opened) :
    (s.closeChannel y).channel c = .closed ↔ y = c := by
  by_cases hc : c = y
  · subst hc
    simp [Server.closeChannel, hopen]
  · simp [Server.closeChannel, Function.update_of_ne hc, hopen, Ne.symm hc]

/-- The session of the account of the channel leads back to the channel. -/
def Server.LeadsTo (s : Server C) (c : C) : Prop :=
  ∃ a S, s.account c = some a ∧ s.sessions a = some S ∧ S.LeadsTo c

omit [DecidableEq C] in
theorem Server.Wellformed.leadsTo_iff (hwf : s.Wellformed) (ha : s.account c = some a)
    (hS : s.sessions a = some S) :
    s.LeadsTo c ↔ ∃ S', S.closing (Channel.asShortText c) = some (c, S') := by
  rw [(hwf a S hS).closing_iff]
  constructor
  · rintro ⟨a', T, ha', hT, h⟩
    obtain rfl : a' = a := Option.some.inj (ha'.symm.trans ha)
    obtain rfl : T = S := Option.some.inj (hT.symm.trans hS)
    exact h
  · exact fun h => ⟨a, S, ha, hS, h⟩

/-- A close closes its channel exactly if it is led back to it. -/
theorem Closing.closed_iff (h : Closing s c t) (hwf : s.Wellformed)
    (hopen : s.channel c = .opened) : t.channel c = .closed ↔ s.LeadsTo c := by
  have hsome : ∀ {y : C} {S' : Session C},
      y = c ↔ ∃ S'', some (y, S') = some (c, S'') := by
    intro y S'
    constructor
    · rintro rfl
      exact ⟨S', rfl⟩
    · rintro ⟨S'', h⟩
      exact congrArg Prod.fst (Option.some.inj h)
  cases h with
  | absent habsent =>
    refine iff_of_false (by simp [hopen]) ?_
    rintro ⟨a, S, ha, hS, -⟩
    cases (habsent a ha).symm.trans hS
  | stale a S ha hS h =>
    rw [hwf.leadsTo_iff ha hS, h]
    exact iff_of_false (by simp [hopen]) (by simp)
  | kept a S S' y ha hS h hpages =>
    rw [hwf.leadsTo_iff ha hS, h, ← hsome]
    exact closeChannel_closed_iff (s := s.store a S') hopen
  | dropped a S S' y now msg ha hS h hpages hmsg =>
    rw [hwf.leadsTo_iff ha hS, h, ← hsome]
    exact closeChannel_closed_iff hopen

/-- A reader-idle event raises nothing, closes its channel and clears the stamp of the channel. -/
structure IdleClosed (s : Server C) (ctx : ChannelHandlerContext C) (now : Clock) : Prop where
  handled : handled s (.readerIdle ctx now) = .ok ()
  closed : (step s (.readerIdle ctx now)).channel ctx.channel = .closed
  cleared : (step s (.readerIdle ctx now)).heartbeat ctx.channel = none

/-- **The channels that an expired stamp closes** are those that the session of their account leads
back to. -/
theorem idleClosed_iff {ctx : ChannelHandlerContext C} {now : Clock}
    (h : (server C).Reachable .empty s) (hopen : s.channel ctx.channel = .opened)
    (hexpired : ReachesClose s (.readerIdle ctx now)) :
    IdleClosed s ctx now ↔ s.LeadsTo ctx.channel := by
  let s₀ : Server C := { s with out := [] }
  have hwf := wellformed_of_reachable h
  cases ha : s.account ctx.channel with
  | none =>
    have hhandle := handle_readerIdle_of_no_account (s := s₀) hexpired ha
    refine iff_of_false ?_ ?_
    · intro hclosed
      cases (congrArg outcome hhandle).symm.trans hclosed.handled
    · rintro ⟨a, S, ha', -⟩
      cases ha.symm.trans ha'
  | some a =>
    obtain ⟨t, hhandle, hclosing⟩ := handle_readerIdle_of_account (s := s₀) hwf hexpired ha
    have hstep : step s (.readerIdle ctx now) = t.setHeartbeat ctx.channel none :=
      congrArg stateAfter hhandle
    have hclosed : t.channel ctx.channel = .closed ↔ s.LeadsTo ctx.channel :=
      hclosing.closed_iff hwf hopen
    constructor
    · intro hidle
      have hchannel := hidle.closed
      rw [hstep] at hchannel
      exact hclosed.mp hchannel
    · intro hleads
      exact
        { handled := congrArg outcome hhandle
          closed := hstep ▸ hclosed.mpr hleads
          cleared := hstep ▸ Function.update_self _ _ _ }

end Close

theorem idleClosed_iff_watch :
    let s := (server Client).exec .empty (kicked.take 2)
    IdleClosed s (Client.watch 0).ctx ⟨120000, []⟩ ↔ s.LeadsTo (.watch 0) :=
  idleClosed_iff ⟨kicked.take 2, ⟨rfl, rfl, trivial⟩, rfl⟩ rfl ⟨100000, rfl, by decide⟩

/-- **A watch that has never logged in is not closed**: its stamp is set all the same, and the close
has no account to look up. -/
theorem silent_watch_stays_open :
    let s := step .empty (.writerIdle (Client.watch 0).ctx ⟨100000, []⟩)
    let e := Event.readerIdle (Client.watch 0).ctx ⟨195000, []⟩
    (server Client).Reachable .empty s ∧ Enabled s e ∧ ReachesClose s e ∧
      handled s e = .error .runtime ∧ (step s e).channel (.watch 0) = .opened ∧
      (step s e).heartbeat (.watch 0) = some 100000 ∧
      ¬ IdleClosed s (Client.watch 0).ctx ⟨195000, []⟩ := by
  intro s e
  refine ⟨⟨[.writerIdle (Client.watch 0).ctx ⟨100000, []⟩], ⟨rfl, trivial⟩, rfl⟩, rfl,
    ⟨100000, rfl, by decide⟩, rfl, rfl, rfl, ?_⟩
  intro h
  cases h.handled

end NettyTcpWeb
