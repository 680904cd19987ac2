import NettyTcpWeb.Server.Offline

/-!
# The broadcast group and the logged-in channels

A login puts its channel into the broadcast group, and a channel leaves the group when it is closed.
Between the two the map may lose the channel. A session that gives way to a login takes its own
channel out of the group, but not its pages; a session that goes with its last page leaves its own
channel in the group; and an idle channel leaves the group without being closed if the session of
its account has nothing under its short id. This module says exactly when the group and the map
agree.

## Main definitions

* `GroupIsLoggedIn`: the open members of the group are the open channels attached to some account
* `LoginKeepsGroup`, `CloseKeepsGroup`, `KeepsGroup`: the logins and closes that keep them in step

## Main results

* `groupIsLoggedIn_login`, `groupIsLoggedIn_close`: the two cases of a step
* `groupIsLoggedIn_iff`: **the group is the set of logged-in channels** throughout exactly the runs
  whose events keep it so
-/

namespace NettyTcpWeb

open Java (Text lit)

variable {C : Type} {s t : Server C}

/-- An open channel is in the broadcast group if and only if it is attached to an account. -/
def GroupIsLoggedIn (s : Server C) : Prop :=
  ∀ x, s.channel x = .opened → (x ∈ s.group ↔ ∃ k, s.Attached k x)

/-- The channel is attached to another account than `key`. -/
def Server.AttachedElsewhere (s : Server C) (key : Text) (x : C) : Prop :=
  ∃ k, k ≠ key ∧ s.Attached k x

/-- When the session `S` of the account `key` goes, and `left` leaves the group, the channel `x`
leaves the group if and only if it loses its last account. -/
def Server.StaysInStep (s : Server C) (key : Text) (S : Session C) (left x : C) : Prop :=
  (x = left → ¬ s.AttachedElsewhere key x) ∧
    (x ≠ left → S.Attached x → s.AttachedElsewhere key x)

theorem attached_iff_elsewhere (s : Server C) (key : Text) {x : C} :
    (∃ k, s.Attached k x) ↔ s.Attached key x ∨ s.AttachedElsewhere key x := by
  constructor
  · rintro ⟨k, hk⟩
    by_cases hkey : k = key
    · exact .inl (hkey ▸ hk)
    · exact .inr ⟨k, hkey, hk⟩
  · rintro (hkey | ⟨k, -, hk⟩)
    · exact ⟨key, hkey⟩
    · exact ⟨k, hk⟩

/-- When a session is stored, its channels are attached, and those that other accounts reach. -/
theorem exists_attached_of_update_some {key : Text} {S : Session C}
    (h : t.sessions = Function.update s.sessions key (some S)) (x : C) :
    (∃ k, t.Attached k x) ↔ S.Attached x ∨ s.AttachedElsewhere key x := by
  rw [attached_iff_elsewhere t key, attached_of_update_some h, if_pos rfl]
  apply or_congr_right
  apply exists_congr
  intro k
  apply and_congr_right
  intro hk
  rw [attached_of_update_some h, if_neg hk]

theorem exists_attached_of_update_none {key : Text}
    (h : t.sessions = Function.update s.sessions key none) (x : C) :
    (∃ k, t.Attached k x) ↔ s.AttachedElsewhere key x :=
  exists_congr fun _ => attached_of_update_none h

/-! ## A channel or a session goes -/

/-- When `left` leaves the group, and the channels outside `O` are closed, the group stays in step
if and only if `left` is closed as well or attached to no account. -/
theorem groupIsLoggedIn_of_left {O : C → Prop} {left : C} (hs : GroupIsLoggedIn s)
    (hopen : ∀ x, t.channel x = .opened ↔ O x ∧ s.channel x = .opened)
    (hgroup : ∀ x, O x → (x ∈ t.group ↔ x ∈ s.group ∧ x ≠ left))
    (hattached : ∀ x, O x → ((∃ k, t.Attached k x) ↔ ∃ k, s.Attached k x)) :
    GroupIsLoggedIn t ↔ (s.channel left = .opened → O left → ∀ k, ¬ s.Attached k left) := by
  constructor
  · intro ht hleft hO k hk
    have hmem := (ht left ((hopen left).mpr ⟨hO, hleft⟩)).mpr ((hattached left hO).mpr ⟨k, hk⟩)
    exact ((hgroup left hO).mp hmem).2 rfl
  · intro hfree x hx
    obtain ⟨hO, hx⟩ := (hopen x).mp hx
    rw [hgroup x hO, hattached x hO, hs x hx]
    apply and_iff_left_of_imp
    rintro ⟨k, hk⟩ rfl
    exact hfree hx hO k hk

/-- When the session `S` goes, `left` leaves the group, and the channels in `P` log in, the group
stays in step if and only if every other open channel does. -/
theorem groupIsLoggedIn_of_gone {d : Text} {S : Session C} {O P : C → Prop} {left : C}
    (hs : GroupIsLoggedIn s) (hS : s.sessions d = some S)
    (hopen : ∀ x, t.channel x = .opened ↔ O x ∧ s.channel x = .opened)
    (hgroup : ∀ x, O x → (x ∈ t.group ↔ (x ∈ s.group ∧ x ≠ left) ∨ P x))
    (hattached : ∀ x, (∃ k, t.Attached k x) ↔ P x ∨ s.AttachedElsewhere d x) :
    GroupIsLoggedIn t ↔
      ∀ x, s.channel x = .opened → O x → ¬ P x → s.StaysInStep d S left x := by
  have hstep : ∀ x, s.channel x = .opened → O x →
      ((x ∈ t.group ↔ ∃ k, t.Attached k x) ↔ (¬ P x → s.StaysInStep d S left x)) := by
    intro x hx hO
    rw [hgroup x hO, hattached, hs x hx, attached_iff_elsewhere _ d, attached_of_some hS,
      Server.StaysInStep]
    tauto
  constructor
  · intro ht x hx hO
    exact (hstep x hx hO).mp (ht x ((hopen x).mpr ⟨hO, hx⟩))
  · intro h x hx
    obtain ⟨hO, hx⟩ := (hopen x).mp hx
    exact (hstep x hx hO).mpr (h x hx hO)

variable [Channel C]

/-! ## Logins -/

/-- A login that takes over an account finds all open channels of the session that gives way
attached to other accounts, but for its own channel and that of the session. A login of a further
page replaces no open page that only the session reaches. -/
def LoginKeepsGroup (s : Server C) (ctx : ChannelHandlerContext C) (source : Source) (d : Text) :
    Prop :=
  s.account ctx.channel ≠ some d → ∀ S, s.sessions d = some S →
    if S.source ≠ source ∨ S.source = .socket then
      ∀ x, s.channel x = .opened → (ctx.remoteAddress ≠ none → x ≠ ctx.channel) →
        s.StaysInStep d S S.session x
    else
      ctx.remoteAddress ≠ none → ∀ page, (Channel.asShortText ctx.channel, page) ∈ S.sessions →
        s.channel page.session = .opened → page.session = ctx.channel ∨
          page.session = S.session ∨ s.AttachedElsewhere d page.session

section Login

variable {ctx : ChannelHandlerContext C} {source : Source} {d : Text} {msg : Model}

theorem loginKeepsGroup_of_none (hS : s.sessions d = none) : LoginKeepsGroup s ctx source d := by
  intro _ S hS'
  simp [hS] at hS'

theorem loginKeepsGroup_of_some {S : Session C} (hne : s.account ctx.channel ≠ some d)
    (hS : s.sessions d = some S) (hev : S.source ≠ source ∨ S.source = .socket) :
    LoginKeepsGroup s ctx source d ↔ ∀ x, s.channel x = .opened → True →
      ¬ (ctx.remoteAddress ≠ none ∧ x = ctx.channel) → s.StaysInStep d S S.session x := by
  simp only [LoginKeepsGroup, hne, ne_eq, not_false_eq_true, true_imp_iff, hS, Option.some.injEq,
    forall_eq', if_pos hev, not_and]

theorem loginKeepsGroup_of_page {S : Session C} (hne : s.account ctx.channel ≠ some d)
    (haddr : ctx.remoteAddress ≠ none) (hS : s.sessions d = some S) (hws : S.source = .websocket) :
    LoginKeepsGroup s ctx .websocket d ↔
      ∀ page, (Channel.asShortText ctx.channel, page) ∈ S.sessions →
        s.channel page.session = .opened → page.session = ctx.channel ∨
          page.session = S.session ∨ s.AttachedElsewhere d page.session := by
  have hev : ¬ (S.source ≠ .websocket ∨ S.source = .socket) := by simp [hws]
  simp only [LoginKeepsGroup, hne, ne_eq, not_false_eq_true, true_imp_iff, hS, Option.some.injEq,
    forall_eq', if_neg hev, haddr]

variable [DecidableEq C]

/-- Without an address the session under the account only gives way. -/
theorem groupIsLoggedIn_unknown (hs : GroupIsLoggedIn s)
    (hne : s.account ctx.channel ≠ some d) (haddr : ctx.remoteAddress = none) :
    GroupIsLoggedIn (s.evict d source) ↔ LoginKeepsGroup s ctx source d := by
  cases hS : s.sessions d with
  | none =>
    rw [evict_of_none s d source hS]
    exact iff_of_true hs (loginKeepsGroup_of_none hS)
  | some S =>
    rw [evict_of_some s d source hS]
    by_cases hev : S.source ≠ source ∨ S.source = .socket
    · rw [if_pos hev, loginKeepsGroup_of_some hne hS hev]
      refine groupIsLoggedIn_of_gone hs hS (fun x => (and_iff_right trivial).symm) (fun x _ => ?_)
        fun x => ?_
      · simp only [haddr, ne_eq, not_true_eq_false, false_and, or_false]
        exact s.mem_leaveGroup S.session
      · simp only [haddr, ne_eq, not_true_eq_false, false_and, false_or]
        exact exists_attached_of_update_none rfl x
    · rw [if_neg hev]
      apply iff_of_true hs
      intro _ S' hS'
      obtain rfl : S = S' := Option.some.inj (hS.symm.trans hS')
      rw [if_neg hev]
      exact fun h => absurd haddr h

/-- A login of its own keeps the group in step if the session that gives way does. -/
theorem groupIsLoggedIn_session {new : Session C} (hs : GroupIsLoggedIn s)
    (hc : s.channel ctx.channel = .opened) (hne : s.account ctx.channel ≠ some d)
    (haddr : ctx.remoteAddress ≠ none) (hnone : (s.evict d source).sessions d = none)
    (hnew : new.OfLogin ctx.channel source d) :
    GroupIsLoggedIn (((s.evict d source).store d new).joinGroup ctx.channel) ↔
      LoginKeepsGroup s ctx source d := by
  set t := ((s.evict d source).store d new).joinGroup ctx.channel with ht
  have hchannel : t.channel = s.channel := evict_channel s d source
  have hsessions : t.sessions = Function.update s.sessions d (some new) :=
    evict_store_sessions s d source new
  have hattached : ∀ x, (∃ k, t.Attached k x) ↔ x = ctx.channel ∨ s.AttachedElsewhere d x := by
    intro x
    rw [exists_attached_of_update_some hsessions, hnew.attached_iff]
  have hgroup : ∀ x, x ∈ t.group ↔ x ∈ (s.evict d source).group ∨ x = ctx.channel := by
    intro x
    rw [ht, Server.mem_joinGroup]
    refine or_congr_right (and_iff_left ?_)
    exact (congrFun hchannel _).trans hc
  cases hS : s.sessions d with
  | none =>
    refine iff_of_true ?_ (loginKeepsGroup_of_none hS)
    intro x hx
    rw [hchannel] at hx
    rw [hattached, hgroup, evict_of_none s d source hS, or_comm, hs x hx,
      attached_iff_elsewhere _ d]
    exact or_congr_right (or_iff_right (not_attached_of_none hS x))
  | some S =>
    rw [evict_of_some s d source hS] at hnone hgroup
    by_cases hev : S.source ≠ source ∨ S.source = .socket
    · rw [if_pos hev] at hgroup
      rw [loginKeepsGroup_of_some hne hS hev]
      refine groupIsLoggedIn_of_gone hs hS (fun x => ?_) (fun x _ => ?_) fun x => ?_
      · rw [hchannel]
        exact (and_iff_right trivial).symm
      · rw [hgroup, and_iff_right haddr]
        exact or_congr_left (s.mem_leaveGroup S.session)
      · rw [hattached, and_iff_right haddr]
    · rw [if_neg hev, hS] at hnone
      cases hnone

/-- A further page keeps the group in step unless it replaces an open page under its short id. -/
theorem groupIsLoggedIn_page {S new : Session C} {now : Int} (hwf : s.Wellformed)
    (hs : GroupIsLoggedIn s) (hc : s.channel ctx.channel = .opened)
    (hne : s.account ctx.channel ≠ some d) (haddr : ctx.remoteAddress ≠ none)
    (hS : s.sessions d = some S) (hws : S.source = .websocket)
    (hnew : new.OfLogin ctx.channel .websocket d) :
    GroupIsLoggedIn ((s.store d { S.addSessions new with updateTime := now }).joinGroup
        ctx.channel) ↔ LoginKeepsGroup s ctx .websocket d := by
  set t := (s.store d { S.addSessions new with updateTime := now }).joinGroup ctx.channel with ht
  have hattached : ∀ x, (∃ k, t.Attached k x) ↔ (x = S.session ∨ x = ctx.channel ∨
      ∃ e ∈ S.sessions, e.1 ≠ Channel.asShortText ctx.channel ∧ x = e.2.session) ∨
        s.AttachedElsewhere d x := by
    intro x
    rw [exists_attached_of_update_some rfl, Session.attached_addSessions, hnew.session, hnew.nid]
  have hgroup : ∀ x, x ∈ t.group ↔ x ∈ s.group ∨ x = ctx.channel := by
    intro x
    rw [ht, Server.mem_joinGroup]
    exact or_congr_right (and_iff_left hc)
  rw [loginKeepsGroup_of_page hne haddr hS hws]
  constructor
  · intro h page hpage hopen
    have hmem : page.session ∈ t.group := by
      rw [hgroup, hs _ hopen]
      exact .inl ⟨d, S, hS, .inr ⟨_, hpage, rfl⟩⟩
    rcases (hattached _).mp ((h _ hopen).mp hmem) with (hown | hc | ⟨e, he, hnid, hsame⟩) | helse
    · exact .inr (.inl hown)
    · exact .inl hc
    · refine absurd ?_ hnid
      have hkeys := ((hwf d S hS).page e he).1
      rw [hkeys, ← hsame]
      exact ((hwf d S hS).page _ hpage).1.symm
    · exact .inr (.inr helse)
  · intro h x hx
    rw [hgroup, hattached, hs x hx, attached_iff_elsewhere _ d, attached_of_some hS]
    constructor
    · rintro (((hown | ⟨e, he, rfl⟩) | helse) | hxc)
      · exact .inl (.inl hown)
      · by_cases hnid : e.1 = Channel.asShortText ctx.channel
        · have hpage : (Channel.asShortText ctx.channel, e.2) ∈ S.sessions := hnid ▸ he
          rcases h e.2 hpage hx with hxc | hown | helse
          · exact .inl (.inr (.inl hxc))
          · exact .inl (.inl hown)
          · exact .inr helse
        · exact .inl (.inr (.inr ⟨e, he, hnid, rfl⟩))
      · exact .inr helse
      · exact .inl (.inr (.inl hxc))
    · rintro ((hown | hxc | ⟨e, he, -, rfl⟩) | helse)
      · exact .inl (.inl (.inl hown))
      · exact .inr hxc
      · exact .inl (.inl (.inr ⟨e, he, rfl⟩))
      · exact .inl (.inr helse)

omit [Channel C] [DecidableEq C] in
theorem groupIsLoggedIn_push (s : Server C) (d : Text) (msg : Model) :
    GroupIsLoggedIn (s.push d msg) ↔ GroupIsLoggedIn s := by
  simp only [GroupIsLoggedIn, Server.Attached, Server.push_channel, Server.push_group,
    Server.push_sessions]

/-- **A login keeps the group in step** exactly under its condition. -/
theorem groupIsLoggedIn_login (hwf : s.Wellformed) (hs : GroupIsLoggedIn s)
    (hc : s.channel ctx.channel = .opened) (h : Login s ctx source d msg t) :
    GroupIsLoggedIn t ↔ LoginKeepsGroup s ctx source d := by
  cases h with
  | reconnect hsame =>
    rw [groupIsLoggedIn_push]
    exact iff_of_true hs fun hne => absurd hsame hne
  | unknown hne haddr => exact groupIsLoggedIn_unknown hs hne haddr
  | session new hne haddr hnone hnew =>
    rw [groupIsLoggedIn_push]
    exact groupIsLoggedIn_session hs hc hne haddr hnone hnew
  | page S new now hne haddr hS hws hsource hnew =>
    subst hsource
    rw [groupIsLoggedIn_push]
    exact groupIsLoggedIn_page hwf hs hc hne haddr hS hws hnew

end Login

/-! ## Closes -/

/-- A close that leaves its channel open finds it attached to no session that stays. A close that
removes a session finds its other open channels attached to other accounts. -/
def CloseKeepsGroup (s : Server C) (c : C) : Prop :=
  ∀ a S, s.account c = some a → s.sessions a = some S →
    match S.closing (Channel.asShortText c) with
    | none => s.channel c = .opened → ∀ k, ¬ s.Attached k c
    | some (y, S') =>
      if S'.sessions = [] then
        ∀ x, s.channel x = .opened → x ≠ y → s.StaysInStep a S c x
      else s.channel c = .opened → c ≠ y → ∀ k, ¬ s.Attached k c

section Close

variable {c : C}

theorem closeKeepsGroup_of_some {a : Text} {S : Session C} (ha : s.account c = some a)
    (hS : s.sessions a = some S) : CloseKeepsGroup s c ↔
      match S.closing (Channel.asShortText c) with
      | none => s.channel c = .opened → ∀ k, ¬ s.Attached k c
      | some (y, S') =>
        if S'.sessions = [] then
          ∀ x, s.channel x = .opened → x ≠ y → s.StaysInStep a S c x
        else s.channel c = .opened → c ≠ y → ∀ k, ¬ s.Attached k c := by
  constructor
  · intro h
    exact h a S ha hS
  · intro h a' S' ha' hS'
    obtain rfl : a = a' := Option.some.inj (ha.symm.trans ha')
    obtain rfl : S = S' := Option.some.inj (hS.symm.trans hS')
    exact h

variable [DecidableEq C]

/-- **A close keeps the group in step** exactly under its condition. -/
theorem groupIsLoggedIn_close (hwf : s.Wellformed) (hs : GroupIsLoggedIn s) (h : Closing s c t) :
    GroupIsLoggedIn t ↔ CloseKeepsGroup s c := by
  cases h with
  | absent habsent =>
    apply iff_of_true hs
    intro a S ha hS
    simp [habsent a ha] at hS
  | stale a S ha hS hclosing =>
    rw [closeKeepsGroup_of_some ha hS, hclosing]
    have hleft := groupIsLoggedIn_of_left (t := s.leaveGroup c) (O := fun _ => True) hs
      (fun x => (and_iff_right trivial).symm) (fun x _ => s.mem_leaveGroup c) fun x _ => Iff.rfl
    simpa using hleft
  | kept a S S' y ha hS hclosing hpages =>
    rw [closeKeepsGroup_of_some ha hS, hclosing]
    simp only [if_neg hpages]
    set t := ((s.store a S').closeChannel y).leaveGroup c with ht
    have hkey : ∀ k x, t.Attached k x ↔ if k = a then S'.Attached x else s.Attached k x :=
      fun k x => attached_of_update_some rfl
    refine groupIsLoggedIn_of_left (O := fun x => x ≠ y) hs
      (fun x => (s.store a S').closeChannel_opened_iff y) (fun x hx => ?_)
      fun x hx => exists_congr fun k => ?_
    · rw [ht, Server.mem_leaveGroup, Server.mem_closeChannel, and_iff_left hx]
      rfl
    · rw [hkey]
      split_ifs with hk
      · subst hk
        rw [attached_of_some hS]
        exact ⟨fun h => h.of_closing hclosing, fun h => h.closing (hwf k S hS) hclosing hx⟩
      · rfl
  | dropped a S S' y now msg ha hS hclosing hpages hmsg =>
    rw [closeKeepsGroup_of_some ha hS, hclosing]
    simp only [if_pos hpages]
    have hgone : GroupIsLoggedIn ((((s.closeChannel y).drop a).broadcast msg).leaveGroup c) ↔
        ∀ x, s.channel x = .opened → x ≠ y → ¬ False → s.StaysInStep a S c x :=
      groupIsLoggedIn_of_gone (O := fun x => x ≠ y) (P := fun _ => False) hs hS
        (fun x => s.closeChannel_opened_iff y) (fun x hx => ?_) fun x => ?_
    · simpa using hgone
    · rw [Server.mem_leaveGroup, or_false]
      exact and_congr_left fun _ => (s.mem_closeChannel y).trans (and_iff_left hx)
    · rw [false_or]
      exact exists_attached_of_update_none rfl x

end Close

/-! ## Runs -/

variable [DecidableEq C]

/-- The logins and the closes that keep the group in step, in the state that the handler finds. -/
def KeepsGroup (s : Server C) : Event C → Prop
  | .message ctx _ m =>
    m.type = lit "LK" → LoginKeepsGroup s ctx (Channel.server ctx.channel) m.deviceId
  | e => ReachesClose s e → CloseKeepsGroup (s.meets e) e.channel

section Step

variable {e : Event C}

omit [Channel C] [DecidableEq C] in
theorem groupIsLoggedIn_sameLogins (h : s.SameLogins t) :
    GroupIsLoggedIn t ↔ GroupIsLoggedIn s := by
  rw [show t = _ from h]
  exact Iff.rfl

omit [Channel C] in
/-- The group drops the channel whose peer disconnects. -/
theorem groupIsLoggedIn_meets (hs : GroupIsLoggedIn s) : GroupIsLoggedIn (s.meets e) := by
  intro x hx
  cases e with
  | message | writerIdle | readerIdle => exact hs x hx
  | disconnect c =>
    obtain ⟨hne, hopen⟩ := (s.closeChannel_opened_iff c).mp hx
    exact ((s.mem_closeChannel c).trans (and_iff_left hne)).trans (hs x hopen)
  | channelInactive ctx now => exact hs x (opened_of_meets s _ hx)

theorem groupIsLoggedIn_step (hwf : s.Wellformed) (hs : GroupIsLoggedIn s) (he : Enabled s e) :
    GroupIsLoggedIn (step s e) ↔ KeepsGroup s e := by
  cases step_effect hwf e with
  | login ctx now m s₀ _ hLK hs₀ hout hlogin =>
    have hwf₀ := hwf.of_sameLogins hs₀
    have hgroup := (groupIsLoggedIn_sameLogins hs₀).mpr hs
    have hopen : s₀.channel ctx.channel = .opened := hs₀.channel ▸ he
    rw [groupIsLoggedIn_login hwf₀ hgroup hopen hlogin, show s₀ = _ from hs₀]
    exact ⟨fun h _ => h, fun h => h hLK⟩
  | close _ t _ hreach hclose ht hout =>
    rw [groupIsLoggedIn_sameLogins ht,
      groupIsLoggedIn_close (hwf.meets e) (groupIsLoggedIn_meets hs) hclose]
    cases e with
    | message => exact absurd hreach id
    | writerIdle | readerIdle | disconnect | channelInactive =>
      exact ⟨fun h _ => h, fun h => h hreach⟩
  | quiet _ _ hLK hreach ht =>
    rw [groupIsLoggedIn_sameLogins ht]
    apply iff_of_true (groupIsLoggedIn_meets hs)
    cases e with
    | message => exact fun h => absurd h hLK
    | writerIdle | readerIdle | disconnect | channelInactive => exact fun h => absurd h hreach

end Step

/-- **The broadcast group is the set of logged-in channels** in every state of a run if and only if
every login and every close of the run keeps it so. -/
theorem groupIsLoggedIn_iff {es : List (Event C)} (hrun : (server C).Run .empty es) :
    (server C).Throughout GroupIsLoggedIn .empty es ↔ (server C).Along KeepsGroup .empty es := by
  refine hrun.throughout_iff wellformed_empty ?_ (fun _ e hwf _ => hwf.step e) fun _ _ hwf hs he =>
    groupIsLoggedIn_step hwf hs he
  intro x _
  refine iff_of_false (fun hx => by cases hx) ?_
  rintro ⟨k, S, hS, -⟩
  cases hS

/-- A watch takes over the account of two pages. -/
def pagesTakenOver : List (Event Client) :=
  [(Client.page 0).linkKeep (lit "1"), (Client.page 1).linkKeep (lit "1"),
    (Client.watch 0).linkKeep (lit "1")]

theorem pagesTakenOver_run : (server Client).Run .empty pagesTakenOver := ⟨rfl, rfl, rfl, trivial⟩

theorem groupIsLoggedIn_iff_pagesTakenOver :
    (server Client).Throughout GroupIsLoggedIn .empty pagesTakenOver ↔
      (server Client).Along KeepsGroup .empty pagesTakenOver :=
  groupIsLoggedIn_iff pagesTakenOver_run

/-- **The second page stays in the group** when the watch takes over the account. -/
theorem displaced_page_in_group : (server Client).Run .empty pagesTakenOver ∧
    ¬ (server Client).Throughout GroupIsLoggedIn .empty pagesTakenOver := by
  refine ⟨pagesTakenOver_run, ?_⟩
  intro h
  obtain ⟨k, S, hS, hc⟩ := (h.exec (.page 1) rfl).mp (.tail _ (.head _))
  by_cases hk : k = lit "1"
  · subst hk
    obtain rfl := Option.some.inj hS
    rcases hc with hc | ⟨p, hp, -⟩
    · cases hc
    · cases hp
  · have hkeep : ∀ (s : Server Client) (c : Client), s.Wellformed →
        (step s (c.linkKeep (lit "1"))).sessions k = s.sessions k :=
      fun s c hwf => sessions_of_linkKeep hwf c.ctx ⟨0, []⟩ rfl hk
    have hpage := wellformed_empty.step ((Client.page 0).linkKeep (lit "1"))
    have hpages := hpage.step ((Client.page 1).linkKeep (lit "1"))
    have hnone := (hkeep _ (.watch 0) hpages).trans
      ((hkeep _ (.page 1) hpage).trans (hkeep _ (.page 0) wellformed_empty))
    cases hS.symm.trans hnone

end NettyTcpWeb
