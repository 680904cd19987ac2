import NettyTcpWeb.Server.Traffic

/-!
# No login is lost to a close

Each step of a login, and each step of a close, keeps the invariant of their interleavings. A login
changes the map only at a time when no close has the lock, and a close takes the account off the map
only if no channel that has logged in depends on it.

## Main results

* `TrafficSafe.login_next`, `TrafficSafe.closer_next`: what a step leaves to be shown of its own
  call and of the others
* `safe_login`, `safe_closer`: a step of a login, and a step of a close, keep the invariant
* `attached_of_traffic`: **closes lose no login**
-/

namespace NettyTcpWeb

open Java (Text lit)

variable {C ι κ : Type}

section Safe

variable [Channel C] {call : ι → Call C} {ctx : κ → ChannelHandlerContext C} {a : Text}
  {y : Traffic ι κ C} {x : Memory C} {c : C} {p : Pc C}

section Login

variable [DecidableEq C] [DecidableEq ι] [DecidableEq κ] {i : ι} {now : Clock}

/-- What a step of the login `i` leaves to be shown: where it can be itself, that the others admit
what it does to the map, and that no close has the lock if it changes the map. -/
theorem TrafficSafe.login_next (hy : TrafficSafe call ctx a y)
    (hnext : (call i).next now y.memory (y.login i) = (x, p))
    (hgrow : y.memory.Grows (ClosedIds ctx) (Logins call) x)
    (hstored : ∀ key r, x.sessions key = some r → r < x.fresh ∧ (x.heap r).account = key)
    (hsource : ∀ r, x.sessions a = some r → (x.heap r).source = .websocket)
    (haccount : ∀ j, j ≠ i → x.rest.account (call j).channel =
      y.memory.rest.account (call j).channel)
    (hown : p.Safe x a (ClosedIds ctx) (call i).channel)
    (hadmits : ∀ j, j ≠ i → (y.login j).Admits y.memory x a)
    (hbeside : p.Underway → ∀ j, j ≠ i → (y.login j).Underway →
      ∃ r, p.Holds r ∧ (y.login j).Holds r)
    (hlock : y.Free ∨
      x.sessions = y.memory.sessions ∧ (p.Published → (y.login i).Published)) :
    TrafficSafe call ctx a ((traffic call ctx).next y (.inl i, now)) := by
  set z := (traffic call ctx).next y (.inl i, now) with hz
  have hmemory : z.memory = x := congrArg Prod.fst hnext
  have hself : z.login i = p := (Function.update_self _ _ _).trans (congrArg Prod.snd hnext)
  have hpc : ∀ j, j ≠ i → z.login j = y.login j := fun j hj => Function.update_of_ne hj _ _
  have hcloser : z.closer = y.closer := rfl
  constructor
  case stored => rwa [hmemory]
  case source => rwa [hmemory]
  case login =>
    intro j
    rw [hmemory]
    by_cases hji : j = i
    · subst hji
      rwa [hself]
    · rw [hpc j hji]
      exact (hy.login j).mono ⟨j, rfl⟩ hgrow (fun r hr => (hy.stored a r hr).1) (haccount j hji)
        (hadmits j hji)
  case beside =>
    intro j k hjk hj hk
    by_cases hji : j = i
    · subst hji
      rw [hself] at hj ⊢
      rw [hpc k (Ne.symm hjk)] at hk ⊢
      exact hbeside hj k (Ne.symm hjk) hk
    · rw [hpc j hji] at hj ⊢
      by_cases hki : k = i
      · subst hki
        rw [hself] at hk ⊢
        exact (hbeside hk j hji hj).imp fun _ => And.symm
      · rw [hpc k hki] at hk ⊢
        exact hy.beside j k hjk hj hk
  case lock => exact hy.lock
  case closer =>
    intro k
    rw [hmemory, hcloser]
    rcases hlock with hfree | ⟨hsessions, hpublished⟩
    · exact CloserPc.safe_of_not_locked (hfree k)
    · refine (hy.closer k).mono hgrow (fun key r hr => (hy.stored key r hr).1) hsessions ?_ ?_
      · rintro c ⟨j, hj, rfl⟩
        refine ⟨j, ?_, rfl⟩
        by_cases hji : j = i
        · subst hji
          exact hpublished (hself ▸ hj)
        · exact hpc j hji ▸ hj
      · rintro c ⟨j, -, rfl⟩
        exact ⟨j, rfl⟩

/-- A step of a login that leaves the map as it is. -/
theorem TrafficSafe.login_keep (hy : TrafficSafe call ctx a y)
    (hnext : (call i).next now y.memory (y.login i) = (x, p))
    (hgrow : y.memory.Grows (ClosedIds ctx) (Logins call) x)
    (hsessions : x.sessions = y.memory.sessions)
    (haccount : ∀ j, j ≠ i → x.rest.account (call j).channel =
      y.memory.rest.account (call j).channel)
    (hown : p.Safe x a (ClosedIds ctx) (call i).channel)
    (hbeside : p.Underway → ∀ j, j ≠ i → (y.login j).Underway →
      ∃ r, p.Holds r ∧ (y.login j).Holds r)
    (hpublished : p.Published → (y.login i).Published) :
    TrafficSafe call ctx a ((traffic call ctx).next y (.inl i, now)) := by
  refine hy.login_next hnext hgrow ?_ ?_ haccount hown
    (fun j _ => (hy.login j).admits hsessions) hbeside (.inr ⟨hsessions, hpublished⟩) <;>
    rw [hsessions]
  · intro key r hr
    obtain ⟨hfresh, hkey⟩ := hy.stored key r hr
    exact ⟨hfresh.trans_le hgrow.fresh, (hgrow.object r hfresh).account.trans hkey⟩
  · intro r hr
    exact (hgrow.object r (hy.stored a r hr).1).source.trans (hy.source r hr)

/-- A step of a login that leaves the map as it is, and goes on with what it holds. -/
theorem TrafficSafe.login_go (hy : TrafficSafe call ctx a y)
    (hnext : (call i).next now y.memory (y.login i) = (x, p))
    (hgrow : y.memory.Grows (ClosedIds ctx) (Logins call) x)
    (hsessions : x.sessions = y.memory.sessions)
    (haccount : ∀ j, j ≠ i → x.rest.account (call j).channel =
      y.memory.rest.account (call j).channel)
    (hown : p.Safe x a (ClosedIds ctx) (call i).channel)
    (hgo : p.Underway → (y.login i).Underway ∧ ∀ r, (y.login i).Holds r → p.Holds r)
    (hpublished : p.Published → (y.login i).Published) :
    TrafficSafe call ctx a ((traffic call ctx).next y (.inl i, now)) := by
  refine hy.login_keep hnext hgrow hsessions haccount hown (fun hp j hj hunder => ?_) hpublished
  obtain ⟨hi, hholds⟩ := hgo hp
  obtain ⟨r, hr, hr'⟩ := hy.beside i j (Ne.symm hj) hi hunder
  exact ⟨r, hholds r hr, hr'⟩

omit [DecidableEq ι] [DecidableEq κ] in
/-- A login that has stored its session changes only the rest of the server. -/
theorem Call.memory_of_published (call : Call C) (now : Clock) (x : Memory C) (hp : p.Published) :
    (call.next now x p).1.heap = x.heap ∧ (call.next now x p).1.fresh = x.fresh ∧
      (call.next now x p).1.sessions = x.sessions := by
  cases p with
  | joinGroup | setAccount | getSession | write | finished => exact ⟨rfl, rfl, rfl⟩
  | heartbeat | get | leaveGroup | remove | setSessionContent | addSession | addSessions
  | updateSession => exact absurd hp id

section Cases

variable (hids : Function.Injective fun i => Channel.asShortText (call i).channel)
  (hopen : ∀ i, ¬ ClosedIds ctx (Channel.asShortText (call i).channel))
  (hpages : ∀ i, Channel.server (call i).channel = .websocket)
  (haddress : ∀ i, (call i).ctx.remoteAddress ≠ none)
  (haccount : ∀ i, (call i).sessionId = a) (hy : TrafficSafe call ctx a y)

omit [DecidableEq C] [DecidableEq ι] [DecidableEq κ] in
include hids in
theorem channel_ne_of_ids {j : ι} (hj : j ≠ i) : (call j).channel ≠ (call i).channel :=
  fun h => hj (hids (congrArg Channel.asShortText h))

include hids hy in
theorem safe_of_published (hp : (y.login i).Published) :
    TrafficSafe call ctx a ((traffic call ctx).next y (.inl i, now)) := by
  obtain ⟨-, hrest, hdone⟩ := (call i).next_of_published (a := a) now y.memory hp
  obtain ⟨hheap, hfresh, hsessions⟩ := (call i).memory_of_published now y.memory hp
  cases hnext : (call i).next now y.memory (y.login i) with | mk x p
  simp only [hnext] at hrest hdone hheap hfresh hsessions
  refine hy.login_go hnext (.of_heap hfresh hheap) hsessions ?_ ?_ ?_ fun _ => hp
  · exact fun j hj => hrest _ (channel_ne_of_ids hids hj)
  · rw [hdone.safe_iff, hheap, hsessions]
    exact hp.safe_iff.mp (hy.login i)
  · exact fun h => absurd h hdone.not_underway

include haccount hy in
theorem safe_of_heartbeat (hp : y.login i = .heartbeat) :
    TrafficSafe call ctx a ((traffic call ctx).next y (.inl i, now)) := by
  have hnew := hy.login i
  rw [hp] at hnew
  have hnext := (call i).next_heartbeat_of_connecting now (x := y.memory)
    (by rw [haccount i]; exact hnew)
  rw [← hp] at hnext
  exact hy.login_go hnext (.of_heap rfl rfl) rfl (fun _ _ => rfl) trivial
    (fun h => absurd h (Pc.not_underway id fun _ => id)) fun h => absurd h id

include hpages haccount hy in
theorem safe_of_get (hp : y.login i = .get) (halone : LooksUpAlone a y (.inl i, now)) :
    TrafficSafe call ctx a ((traffic call ctx).next y (.inl i, now)) := by
  cases hr : y.memory.sessions a with
  | none =>
    have hnext := (call i).next_get_of_none now (x := y.memory) (by rw [haccount i, hr])
    rw [← hp] at hnext
    exact hy.login_keep hnext (.of_heap rfl rfl) rfl (fun _ _ => rfl) hr
      (fun _ j hj hunder => absurd hunder (halone hp hr j hj)) fun h => absurd h id
  | some r =>
    have hws := hy.source r hr
    obtain ⟨hfresh, hkey⟩ := hy.stored a r hr
    have hnext := (call i).next_get_of_page now (by rw [haccount i, hr]) hws (hpages i)
    rw [← hp] at hnext
    refine hy.login_keep hnext (.of_heap rfl rfl) rfl (fun _ _ => rfl) ⟨hfresh, hkey, hws, .inr hr⟩
      ?_ fun h => absurd h id
    rintro - j - (hpub | ⟨r', hr'⟩)
    · have hnone := hpub.absent (hy.login j)
      rw [hr] at hnone
      cases hnone
    · rcases (hr'.found (hy.login j)).stored with hnone | hsome
      · rw [hr] at hnone
        cases hnone
      · obtain rfl := Option.some.inj (hr.symm.trans hsome)
        exact ⟨r, rfl, hr'⟩

include hids hpages haddress haccount hy in
theorem safe_of_setSessionContent {session : Option Ref}
    (hp : y.login i = .setSessionContent session) :
    TrafficSafe call ctx a ((traffic call ctx).next y (.inl i, now)) := by
  have hown := hy.login i
  obtain ⟨new, hnew, hset⟩ := setSessionContent_of_known (w := (call i).wrapper) (call i).ctx now
    (call i).sessionId rfl (haddress i)
  have hnew : new.OfLogin (call i).channel .websocket a := by
    rw [← haccount i, ← hpages i]
    exact hnew
  have hnext := (call i).next_setSessionContent now (x := y.memory) hset session
  rw [← hp] at hnext
  have hrest : ∀ j, j ≠ i → (y.memory.modify (·.setAccount (call i).channel
      (call i).sessionId)).rest.account (call j).channel =
        y.memory.rest.account (call j).channel :=
    fun j hj => Function.update_of_ne (channel_ne_of_ids hids hj) _ _
  rw [hp] at hown
  cases session with
  | none =>
    refine hy.login_go hnext (.of_heap rfl rfl) rfl hrest ⟨hown, hnew⟩ (fun _ => ?_)
      fun h => absurd h id
    rw [hp]
    exact ⟨.inl trivial, fun _ h => h⟩
  | some r =>
    have hfound : y.memory.Found a r := hown
    refine hy.login_go hnext (.of_heap rfl rfl) rfl hrest ⟨⟨hfound.fresh, hfound.account,
      hfound.source, hfound.stored⟩, hnew⟩ (fun _ => ?_) fun h => absurd h id
    rw [hp]
    exact ⟨.inr ⟨r, rfl⟩, fun _ h => h⟩

include hy in
theorem safe_of_addSession {new : Session C} (hp : y.login i = .addSession new) (hfree : y.Free) :
    TrafficSafe call ctx a ((traffic call ctx).next y (.inl i, now)) := by
  have hown := hy.login i
  rw [hp] at hown
  obtain ⟨hnone, hnew⟩ := hown
  have hpublishes : (y.login i).Publishes := by rw [hp]; trivial
  have hnext : (call i).next now y.memory (y.login i) = (y.memory.addSession new, .setAccount) := by
    rw [hp]
    rfl
  have hsessions : (y.memory.addSession new).sessions =
      Function.update y.memory.sessions a (some y.memory.fresh) := by
    rw [← hnew.account]
    rfl
  have hheap : (y.memory.addSession new).heap y.memory.fresh = new := Function.update_self _ _ _
  have hold : ∀ r, r < y.memory.fresh → (y.memory.addSession new).heap r = y.memory.heap r :=
    fun r hr => Function.update_of_ne hr.ne _ _
  have hself : (y.memory.addSession new).sessions a = some y.memory.fresh := by simp [hsessions]
  refine hy.login_next hnext ⟨Nat.le_succ _, fun r hr => ?_⟩ ?_ ?_ (fun _ _ => rfl)
    ⟨_, hself, ?_⟩ (fun j hj => ?_)
    (fun h => absurd h (Pc.not_underway id fun _ => id)) (.inl hfree)
  · rw [hold r hr]
    exact .refl _
  · intro key r hr
    rw [hsessions] at hr
    by_cases hkey : key = a
    · obtain rfl : y.memory.fresh = r := by simpa [hkey] using hr
      exact ⟨Nat.lt_succ_self _, by rw [hheap, hnew.account, hkey]⟩
    · rw [Function.update_of_ne hkey] at hr
      obtain ⟨hfresh, haccount⟩ := hy.stored key r hr
      exact ⟨hfresh.trans (Nat.lt_succ_self _), by rw [hold r hfresh, haccount]⟩
  · intro r hr
    obtain rfl := Option.some.inj (hself.symm.trans hr)
    rw [hheap, hnew.source]
  · rw [hheap]
    refine .inr ⟨hnew.session, hnew.nid, fun e he => ?_⟩
    rw [hnew.sessions] at he
    cases he
  · have halone : ¬ (y.login j).Underway := fun hunder => by
      obtain ⟨r, hr, -⟩ := hy.beside i j (Ne.symm hj) (.inl hpublishes) hunder
      exact hpublishes.not_holds hr
    refine ⟨fun h => absurd (.inl h) halone, fun r h => absurd (.inr ⟨r, h⟩) halone, ?_⟩
    intro hdone
    obtain ⟨r, hr, -⟩ := hdone.safe_iff.mp (hy.login j)
    rw [hnone] at hr
    cases hr

include hids hopen hy in
theorem safe_of_addSessions {r : Ref} {new : Session C} (hp : y.login i = .addSessions r new) :
    TrafficSafe call ctx a ((traffic call ctx).next y (.inl i, now)) := by
  have hown := hy.login i
  rw [hp] at hown
  obtain ⟨hfound, hnew⟩ := hown
  have hnext : (call i).next now y.memory (y.login i) =
      (y.memory.addSessions r new, .updateSession r new) := by
    rw [hp]
    rfl
  have hheap : (y.memory.addSessions r new).heap r = (y.memory.heap r).addSessions new :=
    Function.update_self _ _ _
  have hgrow : (y.memory.heap r).Grows (ClosedIds ctx) (Logins call)
      ((y.memory.heap r).addSessions new) := by
    refine .addSessions (by rw [hnew.nid]; exact hopen i) ?_
    rintro _ ⟨j, rfl⟩ hid
    rw [hids (hid.trans hnew.nid), hnew.session]
  refine hy.login_go hnext (.update hgrow rfl rfl) rfl (fun _ _ => rfl) ⟨?_, ?_⟩ (fun _ => ?_)
    fun h => absurd h id
  · refine ⟨hfound.fresh, ?_, ?_, hfound.stored⟩ <;> rw [hheap]
    · exact hfound.account
    · exact hfound.source
  · rw [hheap]
    exact ⟨new, HashMap.mem_put.mpr (.inl (by rw [hnew.nid])), hnew.session⟩
  · rw [hp]
    exact ⟨.inr ⟨r, rfl⟩, fun _ h => h⟩

include hy in
theorem safe_of_updateSession {r : Ref} {new : Session C} (hp : y.login i = .updateSession r new)
    (hfree : y.Free) : TrafficSafe call ctx a ((traffic call ctx).next y (.inl i, now)) := by
  have hown := hy.login i
  rw [hp] at hown
  obtain ⟨hfound, hpage⟩ := hown
  have hholds : (y.login i).Holds r := by rw [hp]; rfl
  have hnext : (call i).next now y.memory (y.login i) =
      (y.memory.updateSession now r, .joinGroup new) := by
    rw [hp]
    rfl
  have hsessions : (y.memory.updateSession now r).sessions =
      Function.update y.memory.sessions a (some r) := by
    rw [← hfound.account]
    rfl
  have hself : (y.memory.updateSession now r).sessions a = some r := by simp [hsessions]
  have hgrow : y.memory.Grows (ClosedIds ctx) (Logins call) (y.memory.updateSession now r) := by
    refine .update (r := r) ?_ rfl rfl
    exact ⟨rfl, rfl, rfl, rfl, fun _ _ h => h, fun _ h _ => h⟩
  have hobject := hgrow.object r hfound.fresh
  refine hy.login_next hnext hgrow ?_ ?_ (fun _ _ => rfl) ⟨r, hself, .inl ?_⟩
    (fun j hj => ⟨fun hpub => ?_, fun r' hr' => ?_, fun hdone => ?_⟩)
    (fun h => absurd h (Pc.not_underway id fun _ => id)) (.inl hfree)
  · intro key r' hr'
    rw [hsessions] at hr'
    by_cases hkey : key = a
    · obtain rfl : r = r' := by simpa [hkey] using hr'
      exact ⟨hfound.fresh, (hobject.account.trans hfound.account).trans hkey.symm⟩
    · rw [Function.update_of_ne hkey] at hr'
      obtain ⟨hfresh, haccount⟩ := hy.stored key r' hr'
      exact ⟨hfresh, (hgrow.object r' hfresh).account.trans haccount⟩
  · intro r' hr'
    obtain rfl := Option.some.inj (hself.symm.trans hr')
    exact hobject.source.trans hfound.source
  · exact hobject.page _ ⟨i, rfl⟩ hpage
  · obtain ⟨_, hr', -⟩ := hy.beside j i hj (.inl hpub) (.inr ⟨r, hholds⟩)
    exact absurd hr' hpub.not_holds
  · obtain ⟨s, hs, hs'⟩ := hy.beside i j (Ne.symm hj) (.inr ⟨r, hholds⟩) (.inr ⟨r', hr'⟩)
    rw [hself, hholds.unique hs, hs'.unique hr']
    exact .inr rfl
  · obtain ⟨r', hr', -⟩ := hdone.safe_iff.mp (hy.login j)
    rcases hfound.stored with hnone | hsome
    · rw [hr'] at hnone
      cases hnone
    · rw [hself, hsome]

include hids hopen hpages haddress haccount in
/-- **A step of a login** keeps the invariant. -/
theorem safe_login (hy : TrafficSafe call ctx a y)
    (henabled : (traffic call ctx).enabled y (.inl i, now))
    (halone : LooksUpAlone a y (.inl i, now)) :
    TrafficSafe call ctx a ((traffic call ctx).next y (.inl i, now)) := by
  have hown := hy.login i
  cases hp : y.login i with
  | heartbeat => exact safe_of_heartbeat haccount hy hp
  | get => exact safe_of_get hpages haccount hy hp halone
  | setSessionContent => exact safe_of_setSessionContent hids hpages haddress haccount hy hp
  | addSession => exact safe_of_addSession hy hp (henabled.2 (by rw [hp]; trivial))
  | addSessions => exact safe_of_addSessions hids hopen hy hp
  | updateSession => exact safe_of_updateSession hy hp (henabled.2 (by rw [hp]; trivial))
  | leaveGroup | remove =>
    rw [hp] at hown
    exact absurd hown id
  | joinGroup | setAccount | getSession | write | finished =>
    exact safe_of_published hids hy (hp ▸ trivial)

end Cases

end Login

section Closer

variable [DecidableEq C] [DecidableEq ι] [DecidableEq κ] {k : κ} {now : Clock} {q : CloserPc}

/-- What a step of the close `k` leaves to be shown: it changes objects and map only under the lock,
and takes the account off the map only if no channel has logged in. -/
theorem TrafficSafe.closer_next (hy : TrafficSafe call ctx a y)
    (hnext : closerNext now (ctx k) y.memory (y.closer k) = (x, q))
    (hgrow : y.memory.Grows (ClosedIds ctx) (Logins call) x)
    (hsessions : ∀ key, x.sessions key = y.memory.sessions key ∨
      x.sessions key = none ∧ (key = a → ∀ c, ¬ y.LoggedIn call c))
    (haccount : x.rest.account = y.memory.rest.account)
    (hown : q.Safe x a (y.LoggedIn call))
    (hlocked : (y.closer k).Locked ∨
      x.heap = y.memory.heap ∧ x.fresh = y.memory.fresh ∧ x.sessions = y.memory.sessions)
    (hlock : q.Locked → (y.closer k).Locked ∨ y.Free) :
    TrafficSafe call ctx a ((traffic call ctx).next y (.inr k, now)) := by
  set z := (traffic call ctx).next y (.inr k, now) with hz
  have hmemory : z.memory = x := congrArg Prod.fst hnext
  have hself : z.closer k = q := (Function.update_self _ _ _).trans (congrArg Prod.snd hnext)
  have hpc : ∀ k', k' ≠ k → z.closer k' = y.closer k' := fun k' hk' => Function.update_of_ne hk' _ _
  have hlogin : z.login = y.login := rfl
  have hloggedIn : z.LoggedIn call = y.LoggedIn call := rfl
  have hkept : ∀ {key r}, x.sessions key = some r → y.memory.sessions key = some r := by
    intro key r hr
    rcases hsessions key with hsame | ⟨hnone, -⟩
    · exact hsame.symm.trans hr
    · rw [hr] at hnone
      cases hnone
  constructor
  case stored =>
    rw [hmemory]
    intro key r hr
    obtain ⟨hfresh, hkey⟩ := hy.stored key r (hkept hr)
    exact ⟨hfresh.trans_le hgrow.fresh, (hgrow.object r hfresh).account.trans hkey⟩
  case source =>
    rw [hmemory]
    intro r hr
    exact (hgrow.object r (hy.stored a r (hkept hr)).1).source.trans (hy.source r (hkept hr))
  case login =>
    intro i
    rw [hmemory, hlogin]
    refine (hy.login i).mono ⟨i, rfl⟩ hgrow (fun r hr => (hy.stored a r hr).1)
      (congrFun haccount _) ⟨fun hpub => ?_, fun r hr => ?_, fun hdone => ?_⟩
    · have hnone := hpub.absent (hy.login i)
      exact (hsessions a).elim (fun h => h.trans hnone) And.left
    · rcases hsessions a with hsame | ⟨hnone, -⟩
      · rw [hsame]
        exact (hr.found (hy.login i)).stored
      · exact .inl hnone
    · exact (hsessions a).elim id fun h => absurd ⟨i, hdone, rfl⟩ (h.2 rfl _)
  case beside => exact hy.beside
  case lock =>
    intro j j' hj hj'
    by_cases hjk : j = k
    · subst hjk
      by_cases hjj' : j' = j
      · exact hjj'.symm
      · rw [hself] at hj
        rw [hpc j' hjj'] at hj'
        exact (hlock hj).elim (fun h => hy.lock j j' h hj') fun h => absurd hj' (h j')
    · rw [hpc j hjk] at hj
      by_cases hjk' : j' = k
      · subst hjk'
        rw [hself] at hj'
        exact (hlock hj').elim (fun h => hy.lock j j' hj h) fun h => absurd hj (h j)
      · exact hy.lock j j' hj (hpc j' hjk' ▸ hj')
  case closer =>
    intro j
    rw [hmemory, hloggedIn]
    by_cases hjk : j = k
    · subst hjk
      rwa [hself]
    · rw [hpc j hjk]
      rcases hlocked with hlocked | ⟨hheap, hfresh, hsame⟩
      · exact CloserPc.safe_of_not_locked fun hj => hjk (hy.lock j k hj hlocked)
      · refine (hy.closer j).mono hgrow (fun key r hr => (hy.stored key r hr).1) hsame
          (fun _ h => h) ?_
        rintro c ⟨i, -, rfl⟩
        exact ⟨i, rfl⟩

/-- A step of a close that changes only the rest of the server. -/
theorem TrafficSafe.closer_modify {f : Server C → Server C} (hy : TrafficSafe call ctx a y)
    (hnext : closerNext now (ctx k) y.memory (y.closer k) = (y.memory.modify f, q))
    (haccount : ∀ s, (f s).account = s.account) (hown : q.Safe y.memory a (y.LoggedIn call))
    (hlock : q.Locked → (y.closer k).Locked ∨ y.Free) :
    TrafficSafe call ctx a ((traffic call ctx).next y (.inr k, now)) :=
  hy.closer_next hnext (.of_heap rfl rfl) (fun _ => .inl rfl) (haccount _) hown
    (.inr ⟨rfl, rfl, rfl⟩) hlock

/-- A step of a close that only looks something up. -/
theorem TrafficSafe.closer_look (hy : TrafficSafe call ctx a y)
    (hnext : closerNext now (ctx k) y.memory (y.closer k) = (y.memory, q))
    (hown : q.Safe y.memory a (y.LoggedIn call)) (hlock : q.Locked → (y.closer k).Locked ∨ y.Free) :
    TrafficSafe call ctx a ((traffic call ctx).next y (.inr k, now)) :=
  hy.closer_modify (f := id) hnext (fun _ => rfl) hown hlock

section Cases

variable (hopen : ∀ i, ¬ ClosedIds ctx (Channel.asShortText (call i).channel))
  (hy : TrafficSafe call ctx a y)

omit [DecidableEq C] [DecidableEq ι] [DecidableEq κ] in
include hopen hy in
/-- A channel that has logged in has a page, unless it is that of the session itself, which then has
no page that is closed. -/
theorem Traffic.LoggedIn.keeps {r : Ref} (hc : y.LoggedIn call c)
    (hr : y.memory.sessions a = some r) : (y.memory.heap r).Keeps (ClosedIds ctx) c ∧
      ∀ k, Channel.asShortText c ≠ Channel.asShortText (ctx k).channel := by
  obtain ⟨i, hdone, rfl⟩ := hc
  obtain ⟨r', hr', hkeeps⟩ := hdone.safe_iff.mp (hy.login i)
  obtain rfl := Option.some.inj (hr.symm.trans hr')
  exact ⟨hkeeps, fun k hk => hopen i ⟨k, hk⟩⟩

include hy in
theorem safe_of_getSession (hp : y.closer k = .getSession) :
    TrafficSafe call ctx a ((traffic call ctx).next y (.inr k, now)) := by
  cases haccount : y.memory.rest.account (ctx k).channel with
  | none =>
    have hnext : closerNext now (ctx k) y.memory (y.closer k) = (y.memory, .finished) := by
      rw [hp]
      simp only [closerNext, haccount]
    exact hy.closer_look hnext trivial fun h => absurd h id
  | some key =>
    cases hkey : y.memory.sessions key with
    | none =>
      have hnext : closerNext now (ctx k) y.memory (y.closer k) = (y.memory, .finished) := by
        rw [hp]
        simp only [closerNext, haccount, hkey]
      exact hy.closer_look hnext trivial fun h => absurd h id
    | some r =>
      have hnext : closerNext now (ctx k) y.memory (y.closer k) =
          (y.memory, .removeSession key) := by
        rw [hp]
        simp only [closerNext, haccount, hkey]
      exact hy.closer_look hnext trivial fun h => absurd h id

include hy in
theorem safe_of_removeSession {key : Text} (hp : y.closer k = .removeSession key)
    (hfree : y.Free) : TrafficSafe call ctx a ((traffic call ctx).next y (.inr k, now)) := by
  cases hr : y.memory.sessions key with
  | none =>
    have hnext : closerNext now (ctx k) y.memory (y.closer k) = (y.memory, .leaveGroup) := by
      rw [hp]
      simp only [closerNext, hr]
    exact hy.closer_look hnext trivial fun h => absurd h id
  | some r =>
    by_cases hws : (y.memory.heap r).source = .websocket
    · have hnext : closerNext now (ctx k) y.memory (y.closer k) =
          (y.memory, .closePage key r) := by
        rw [hp]
        simp only [closerNext, hr, if_pos hws]
      exact hy.closer_look hnext hr fun _ => .inr hfree
    · have hnext : closerNext now (ctx k) y.memory (y.closer k) = (y.memory, .close key r) := by
        rw [hp]
        simp only [closerNext, hr, if_neg hws]
      refine hy.closer_look hnext ⟨hr, ?_⟩ fun _ => .inr hfree
      rintro rfl
      exact hws (hy.source r hr)

include hopen hy in
theorem safe_of_closePage {key : Text} {r : Ref} (hp : y.closer k = .closePage key r) :
    TrafficSafe call ctx a ((traffic call ctx).next y (.inr k, now)) := by
  have hr : y.memory.sessions key = some r := by
    have hown := hy.closer k
    rwa [hp] at hown
  have hlocked : (y.closer k).Locked := by rw [hp]; trivial
  by_cases hnid : (y.memory.heap r).nid = Channel.asShortText (ctx k).channel
  · have hnext : closerNext now (ctx k) y.memory (y.closer k) =
        (y.memory.modify (·.closeChannel (y.memory.heap r).session), .otherSessionSize key r) := by
      rw [hp]
      simp only [closerNext, if_pos hnid]
    refine hy.closer_modify hnext (fun _ => rfl) ⟨hr, ?_⟩ fun _ => .inl hlocked
    rintro rfl c hc
    obtain ⟨hpage | ⟨-, hown, -⟩, hne⟩ := hc.keeps hopen hy hr
    · exact hpage
    · exact absurd (hown.symm.trans hnid) (hne k)
  have hgrow : (y.memory.heap r).Grows (ClosedIds ctx) (Logins call)
      ((y.memory.heap r).without (Channel.asShortText (ctx k).channel)) := by
    apply Session.Grows.without
    rintro _ ⟨i, rfl⟩ hid
    exact hopen i ⟨k, hid⟩
  have hupdate : y.memory.Grows (ClosedIds ctx) (Logins call)
      (y.memory.removePage r (Channel.asShortText (ctx k).channel)) := .update hgrow rfl rfl
  cases hget : HashMap.get (y.memory.heap r).sessions (Channel.asShortText (ctx k).channel) with
  | none =>
    have hnext : closerNext now (ctx k) y.memory (y.closer k) =
        (y.memory.removePage r (Channel.asShortText (ctx k).channel), .leaveGroup) := by
      rw [hp]
      simp only [closerNext, if_neg hnid, hget]
    exact hy.closer_next hnext hupdate (fun _ => .inl rfl) rfl trivial (.inl hlocked)
      fun _ => .inl hlocked
  | some page =>
    have hnext : closerNext now (ctx k) y.memory (y.closer k) =
        ((y.memory.removePage r (Channel.asShortText (ctx k).channel)).modify
          (·.closeChannel page.session), .otherSessionSize key r) := by
      rw [hp]
      simp only [closerNext, if_neg hnid, hget]
    refine hy.closer_next hnext (.update hgrow rfl rfl) (fun _ => .inl rfl) rfl ⟨hr, ?_⟩
      (.inl hlocked) fun _ => .inl hlocked
    rintro rfl c hc
    obtain ⟨hpage | ⟨-, -, hpages⟩, -⟩ := hc.keeps hopen hy hr
    · obtain ⟨i, -, rfl⟩ := hc
      exact (hupdate.object r (hy.stored key r hr).1).page _ ⟨i, rfl⟩ hpage
    · exact absurd ⟨k, rfl⟩ (hpages _ (HashMap.mem_of_get hget))

include hy in
theorem safe_of_otherSessionSize {key : Text} {r : Ref}
    (hp : y.closer k = .otherSessionSize key r) :
    TrafficSafe call ctx a ((traffic call ctx).next y (.inr k, now)) := by
  have hown := hy.closer k
  rw [hp] at hown
  have hlocked : (y.closer k).Locked := by rw [hp]; trivial
  have hnext : closerNext now (ctx k) y.memory (y.closer k) = (y.memory,
      if (y.memory.heap r).otherSessionSize < 1 then .remove key else .leaveGroup) := by
    rw [hp]
    rfl
  by_cases hsize : (y.memory.heap r).otherSessionSize < 1
  · rw [if_pos hsize] at hnext
    refine hy.closer_look hnext ?_ fun _ => .inl hlocked
    intro hkey c hc
    obtain ⟨page, hpage, -⟩ := hown.2 hkey c hc
    exact absurd (List.length_pos_of_mem hpage) (Nat.not_lt.mpr (Nat.lt_succ_iff.mp hsize))
  · rw [if_neg hsize] at hnext
    exact hy.closer_look hnext trivial fun h => absurd h id

include hy in
theorem safe_of_remove {key : Text} (hp : y.closer k = .remove key) :
    TrafficSafe call ctx a ((traffic call ctx).next y (.inr k, now)) := by
  have hown := hy.closer k
  rw [hp] at hown
  have hlocked : (y.closer k).Locked := by rw [hp]; trivial
  have hnext : closerNext now (ctx k) y.memory (y.closer k) =
      (y.memory.remove key, .broadcast key) := by
    rw [hp]
    rfl
  refine hy.closer_next hnext (.of_heap rfl rfl) ?_ rfl trivial (.inl hlocked) fun _ => .inl hlocked
  intro key'
  by_cases hkey : key' = key
  · subst hkey
    exact .inr ⟨Function.update_self _ _ _, hown⟩
  · exact .inl (Function.update_of_ne hkey _ _)

include hopen in
/-- **A step of a close** keeps the invariant. -/
theorem safe_closer (hy : TrafficSafe call ctx a y)
    (henabled : (traffic call ctx).enabled y (.inr k, now)) :
    TrafficSafe call ctx a ((traffic call ctx).next y (.inr k, now)) := by
  cases hp : y.closer k with
  | getSession => exact safe_of_getSession hy hp
  | removeSession key => exact safe_of_removeSession hy hp (henabled.2 ⟨key, hp⟩)
  | closePage => exact safe_of_closePage hopen hy hp
  | close key r =>
    have hown := hy.closer k
    rw [hp] at hown
    have hnext : closerNext now (ctx k) y.memory (y.closer k) =
        (y.memory.modify (·.closeChannel (y.memory.heap r).session), .remove key) := by
      rw [hp]
      rfl
    exact hy.closer_modify hnext (fun _ => rfl) (fun hkey => absurd hkey hown.2)
      fun _ => .inl (by rw [hp]; trivial)
  | otherSessionSize => exact safe_of_otherSessionSize hy hp
  | remove => exact safe_of_remove hy hp
  | broadcast key =>
    cases hmsg : getOffLineStateMsg now.text key with
    | ok msg =>
      have hnext : closerNext now (ctx k) y.memory (y.closer k) =
          (y.memory.modify (·.broadcast msg), .leaveGroup) := by
        rw [hp]
        simp only [closerNext, hmsg]
      exact hy.closer_modify hnext (fun _ => rfl) trivial fun h => absurd h id
    | error e =>
      have hnext : closerNext now (ctx k) y.memory (y.closer k) = (y.memory, .leaveGroup) := by
        rw [hp]
        simp only [closerNext, hmsg]
      exact hy.closer_look hnext trivial fun h => absurd h id
  | leaveGroup =>
    have hnext : closerNext now (ctx k) y.memory (y.closer k) =
        (y.memory.modify (·.leaveGroup (ctx k).channel), .finished) := by
      rw [hp]
      rfl
    exact hy.closer_modify hnext (fun _ => rfl) trivial fun h => absurd h id
  | finished => exact absurd hp henabled.1

end Cases

end Closer

end Safe

/-! ## Runs -/

section Runs

variable [DecidableEq C] [Channel C] [DecidableEq ι] [DecidableEq κ] {call : ι → Call C}
  {ctx : κ → ChannelHandlerContext C} {a : Text} {x : Memory C}

/-- **Closes lose no login.** Pages of one account log in while other channels close, in any
interleaving that the lock of the session manager admits, from any reachable state in which the
account is absent or belongs to web pages. The short ids of the pages differ from each other and
from those of the channels that close, and their addresses are known. If a login that finds the
account absent is always the only one under way, then every page is attached from the moment when
its login has stored it. -/
theorem attached_of_traffic
    (hids : Function.Injective fun i => Channel.asShortText (call i).channel)
    (hopen : ∀ i k, Channel.asShortText (call i).channel ≠ Channel.asShortText (ctx k).channel)
    (hpages : ∀ i, Channel.server (call i).channel = .websocket)
    (haddress : ∀ i, (call i).ctx.remoteAddress ≠ none) (haccount : ∀ i, (call i).sessionId = a)
    (hvalid : x.Valid) (hx : (server C).Reachable .empty x.server)
    (hws : ∀ S, x.server.sessions a = some S → S.source = .websocket)
    (hnew : ∀ i, x.server.account (call i).channel ≠ some a) {es : List ((ι ⊕ κ) × Clock)}
    (hrun : (traffic call ctx).Run x.traffic es)
    (halone : (traffic call ctx).Along (LooksUpAlone a) x.traffic es) {i : ι}
    (hdone : (((traffic call ctx).exec x.traffic es).login i).Published) :
    ((traffic call ctx).exec x.traffic es).memory.server.Attached a (call i).channel := by
  have hclosed : ∀ i, ¬ ClosedIds ctx (Channel.asShortText (call i).channel) :=
    fun i ⟨k, hk⟩ => hopen i k hk
  have hstart : TrafficSafe call ctx a x.traffic :=
    safe_traffic hvalid (wellformed_of_reachable hx) hws hnew
  have hstep : ∀ y e, TrafficSafe call ctx a y → (traffic call ctx).enabled y e →
      LooksUpAlone a y e → TrafficSafe call ctx a ((traffic call ctx).next y e) := by
    rintro y ⟨i | k, now⟩ hy henabled he
    · exact safe_login hids hclosed hpages haddress haccount hy henabled he
    · exact safe_closer hclosed hy henabled
  have hsafe := (hrun.throughout hstart halone hstep).exec
  obtain ⟨r, hr, hkeeps⟩ := hdone.safe_iff.mp (hsafe.login i)
  exact ⟨_, congrArg (Option.map _) hr, hkeeps.attached⟩

end Runs

/-- The server when the first page has logged in. -/
def onePage : Server Client := (server Client).exec .empty [(Client.page 0).linkKeep (lit "1")]

/-- The memory with that session at the first reference. -/
def oneSession : Memory Client where
  heap r := (onePage.sessions (lit "1")).getD (noSessions.heap r)
  fresh := 1
  sessions key := if key = lit "1" then some 0 else none
  rest := onePage

theorem oneSession_reachable : (server Client).Reachable .empty oneSession.server := by
  refine ⟨[(Client.page 0).linkKeep (lit "1")], ⟨rfl, trivial⟩, ?_⟩
  have hsessions : oneSession.server.sessions = onePage.sessions := by
    funext key
    by_cases hkey : key = lit "1"
    · subst hkey
      rfl
    · have hnone : onePage.sessions key = none := Function.update_of_ne hkey _ _
      have hold : oneSession.sessions key = none := if_neg hkey
      rw [hnone]
      exact congrArg (Option.map _) hold
  calc onePage
    _ = { oneSession.rest with sessions := onePage.sessions } := rfl
    _ = _ := by rw [← hsessions]; rfl

theorem oneSession_valid : oneSession.Valid := by
  intro key session h
  have hsession : (if key = lit "1" then some 0 else none) = some session := h
  split_ifs at hsession
  obtain rfl := Option.some.inj hsession
  exact Nat.one_pos

/-- The second page logs in. -/
def secondCall (_ : Unit) : Call Client :=
  ⟨(Client.page 1).ctx, { deviceId := lit "1", type := lit "LK" }⟩

/-- The first page is closed. -/
def firstCtx (_ : Unit) : ChannelHandlerContext Client := (Client.page 0).ctx

/-- The login finds the session. The close counts its pages, and the login adds one. The close takes
the account off the map, and the login stores the session again. -/
def joinsAndCloses : List ((Unit ⊕ Unit) × Clock) :=
  ([.inl (), .inl (), .inl (), .inr (), .inr (), .inr (), .inr (), .inl (), .inr (), .inr (),
    .inr (), .inl (), .inl (), .inl (), .inl (), .inl ()] : List (Unit ⊕ Unit)).map (·, ⟨0, []⟩)

theorem joinsAndCloses_run :
    (traffic secondCall firstCtx).Run oneSession.traffic joinsAndCloses :=
  ⟨⟨nofun, nofun⟩, ⟨nofun, nofun⟩, ⟨nofun, nofun⟩, ⟨nofun, nofun⟩, ⟨nofun, fun _ _ => id⟩,
    ⟨nofun, nofun⟩, ⟨nofun, nofun⟩, ⟨nofun, nofun⟩, ⟨nofun, nofun⟩, ⟨nofun, nofun⟩,
    ⟨nofun, nofun⟩, ⟨nofun, fun _ _ => id⟩, ⟨nofun, nofun⟩, ⟨nofun, nofun⟩, ⟨nofun, nofun⟩,
    ⟨nofun, nofun⟩, trivial⟩

theorem attached_of_traffic_joinsAndCloses :
    ((traffic secondCall firstCtx).exec oneSession.traffic joinsAndCloses).memory.server.Attached
      (lit "1") (Client.page 1) := by
  have hopen : ∀ i k, Channel.asShortText (secondCall i).channel ≠
      Channel.asShortText (firstCtx k).channel := by decide
  have hnew : ∀ i, oneSession.server.account (secondCall i).channel ≠ some (lit "1") := by decide
  have hws : ∀ S, oneSession.server.sessions (lit "1") = some S → S.source = .websocket := by
    intro S hS
    obtain rfl := Option.some.inj hS
    rfl
  refine attached_of_traffic (fun _ _ _ => rfl) hopen (fun _ => rfl)
    (fun _ => Option.some_ne_none _) (fun _ => rfl) oneSession_valid oneSession_reachable hws hnew
    joinsAndCloses_run ?_ (i := ()) trivial
  refine Automaton.along_mono joinsAndCloses_run fun y e _ => ?_
  cases e with | mk e now
  cases e with
  | inl i => exact fun _ _ j hj => absurd rfl hj
  | inr k => exact trivial

end NettyTcpWeb
