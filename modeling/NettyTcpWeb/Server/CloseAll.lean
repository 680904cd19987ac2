import NettyTcpWeb.Server.Client
import NettyTcpWeb.Server.Registry

/-!
# Closing an account

`close(sessionId)` closes the channels of a session and removes the session from the map. It closes
the own channel and then the pages, and removes each page from the map it iterates over. The
iterator notices this when it is asked for a second page: the removal stops there, and the session
stays in the map with the pages that are left.

## Main definitions

* `Server.closeAll`: the server when the iteration has stopped
* `ClosesAccount`: the account is gone, and its channels are closed and out of the group

## Main results

* `closeSession_of_page`, `closeSession_of_pages`: what `close(sessionId)` does
* `closesAccount_iff`: **closing an account closes all of it** if it has at most one further page
-/

namespace NettyTcpWeb

open Java (Text Exception lit)
open StateExcept

variable {C : Type} [DecidableEq C]

section LeaveGroup

variable (s : Server C) (cs : List C)

/-- The loop over the channels, as `simp` writes it. -/
theorem foldlM_leaveGroup : (cs.foldlM (fun _ ch => modify (·.leaveGroup ch)) PUnit.unit :
    Handler C PUnit) s = .ok PUnit.unit (cs.foldl Server.leaveGroup s) := by
  induction cs generalizing s with
  | nil => rfl
  | cons c cs ih => exact ih (s.leaveGroup c)

@[simp] theorem leaveGroups_sessions :
    (cs.foldl Server.leaveGroup s).sessions = s.sessions := by
  induction cs generalizing s with
  | nil => rfl
  | cons c cs ih => exact ih (s.leaveGroup c)

@[simp] theorem leaveGroups_channel :
    (cs.foldl Server.leaveGroup s).channel = s.channel := by
  induction cs generalizing s with
  | nil => rfl
  | cons c cs ih => exact ih (s.leaveGroup c)

theorem mem_leaveGroups {x : C} :
    x ∈ (cs.foldl Server.leaveGroup s).group ↔ x ∈ s.group ∧ x ∉ cs := by
  induction cs generalizing s with
  | nil => simp
  | cons c cs ih =>
    rw [List.foldl_cons, ih, Server.mem_leaveGroup, List.mem_cons, not_or, and_assoc]

end LeaveGroup

/-! ## What the iteration closes -/

section CloseAll

variable {s : Server C} {a nid : Text} {S page : Session C} {rest : List (Text × Session C)}

theorem closeAll_of_nil (h : S.sessions = []) :
    S.closeAll a s = .ok S (s.closeChannel S.session) := by
  simp [Session.closeAll, h, Session.closeAllLoop]

/-- The first page is closed and removed; for a second one the iterator raises. -/
theorem closeAll_of_cons (h : S.sessions = (nid, page) :: rest) : S.closeAll a s =
    let t := ((s.closeChannel S.session).closeChannel page.session).store a (S.without nid)
    if rest = [] then .ok (S.without nid) t else .error .concurrentModification t := by
  have hget : HashMap.get S.sessions nid = some page := by simp [h, HashMap.get]
  have hkeys : S.sessions.map Prod.fst = nid :: rest.map Prod.fst := by simp [h]
  rw [Session.closeAll, hkeys]
  cases rest with
  | nil => simp [Session.closeAllLoop, hget]
  | cons e rest => simp [Session.closeAllLoop, hget]

theorem removeSessionAll_of_nil (hS : s.sessions a = some S) (h : S.sessions = []) :
    removeSessionAll a s = .ok (some S) ((s.closeChannel S.session).drop a) := by
  simp [removeSessionAll, getSession_some, hS, closeAll_of_nil h]

/-- The exception of the iterator is swallowed, and the session is still in the map. -/
theorem removeSessionAll_of_cons (hS : s.sessions a = some S)
    (h : S.sessions = (nid, page) :: rest) : removeSessionAll a s =
      let t := ((s.closeChannel S.session).closeChannel page.session).store a (S.without nid)
      .ok (some (S.without nid)) (if rest = [] then t.drop a else t) := by
  cases rest with
  | nil => simp [removeSessionAll, getSession_some, hS, closeAll_of_cons h]
  | cons e rest => simp [removeSessionAll, getSession_some, hS, closeAll_of_cons h]

theorem closeSession_of_some {left : Session C} {t : Server C} (hS : s.sessions a = some S)
    (h : removeSessionAll a s = .ok (some left) t) : closeSession (some a) s =
      .ok () (left.getSessionAll.foldl Server.leaveGroup t) := by
  simp [closeSession, getSession_some, hS, nonNull, h, foldlM_leaveGroup]

theorem closeSession_of_none (hS : s.sessions a = none) : closeSession (some a) s = .ok () s := by
  simp [closeSession, getSession_some, hS]

theorem closeSession_of_nil (hS : s.sessions a = some S) (h : S.sessions = []) :
    closeSession (some a) s = .ok () (S.getSessionAll.foldl Server.leaveGroup
      ((s.closeChannel S.session).drop a)) :=
  closeSession_of_some hS (removeSessionAll_of_nil hS h)

theorem closeSession_of_cons (hS : s.sessions a = some S) (h : S.sessions = (nid, page) :: rest) :
    closeSession (some a) s =
      let t := ((s.closeChannel S.session).closeChannel page.session).store a (S.without nid)
      .ok () ((S.without nid).getSessionAll.foldl Server.leaveGroup
        (if rest = [] then t.drop a else t)) :=
  closeSession_of_some hS (removeSessionAll_of_cons hS h)

/-- Of a session with two further pages the own channel and the first page are closed, and it stays
in the map. -/
theorem closeSession_of_two {e : Text × Session C} (hS : s.sessions a = some S)
    (h : S.sessions = (nid, page) :: e :: rest) :
    (stateAfter (closeSession (some a) s)).sessions a = some (S.without nid) ∧
      ∀ x, (stateAfter (closeSession (some a) s)).channel x = .opened ↔
        x ≠ page.session ∧ x ≠ S.session ∧ s.channel x = .opened := by
  rw [closeSession_of_cons hS h, stateAfter]
  refine ⟨by simp, fun x => ?_⟩
  rw [leaveGroups_channel]
  exact (Server.closeChannel_opened_iff _ page.session).trans
    (and_congr_right fun _ => s.closeChannel_opened_iff S.session)

end CloseAll

/-! ## Accounts that are gone -/

/-- After `close(sessionId)` the account has no session, and the channels of the session it had are
closed and out of the group. -/
structure ClosesAccount (s : Server C) (a : Text) (S : Session C) : Prop where
  removed : (stateAfter (closeSession (some a) s)).sessions a = none
  closed : ∀ x, S.Attached x → (stateAfter (closeSession (some a) s)).channel x ≠ .opened
  left : ∀ x, S.Attached x → x ∉ (stateAfter (closeSession (some a) s)).group

/-- **Closing an account closes all of it** if and only if its session has at most one further
page. -/
theorem closesAccount_iff {s : Server C} {a : Text} {S : Session C} (hS : s.sessions a = some S) :
    ClosesAccount s a S ↔ S.sessions.length ≤ 1 := by
  cases h : S.sessions with
  | nil =>
    have hown : ∀ x, S.Attached x ↔ x = S.session := fun x => by simp [Session.Attached, h]
    refine iff_of_true ⟨?_, fun x hx => ?_, fun x hx => ?_⟩ (by simp)
    all_goals rw [closeSession_of_nil hS h, stateAfter]
    · simp
    · rw [leaveGroups_channel, (hown x).mp hx]
      exact fun hopen => ((s.closeChannel_opened_iff S.session).mp hopen).1 rfl
    · rw [mem_leaveGroups, (hown x).mp hx]
      exact fun hmem => ((s.mem_closeChannel S.session).mp hmem.1).2 rfl
  | cons e rest =>
    obtain ⟨nid, page⟩ := e
    cases rest with
    | nil =>
      have hown : ∀ x, S.Attached x ↔ x = S.session ∨ x = page.session :=
        fun x => by simp [Session.Attached, h]
      refine iff_of_true ⟨?_, fun x hx => ?_, fun x hx => ?_⟩ (by simp)
      all_goals rw [closeSession_of_cons hS h, stateAfter]
      · simp
      · rw [leaveGroups_channel]
        intro hopen
        obtain ⟨hpage, hopen⟩ := (Server.closeChannel_opened_iff _ page.session).mp hopen
        obtain ⟨hne, -⟩ := (s.closeChannel_opened_iff S.session).mp hopen
        exact ((hown x).mp hx).elim hne hpage
      · rw [mem_leaveGroups]
        rintro ⟨hmem, -⟩
        obtain ⟨hmem, hpage⟩ := (Server.mem_closeChannel _ page.session).mp hmem
        obtain ⟨-, hne⟩ := (s.mem_closeChannel S.session).mp hmem
        exact ((hown x).mp hx).elim hne hpage
    | cons e' rest =>
      refine iff_of_false ?_ (by simp)
      intro hclosed
      have hnone := hclosed.removed
      rw [(closeSession_of_two hS h).1] at hnone
      cases hnone

/-- Some pages log in for one account. -/
def pagesLoggedIn (n : Nat) : List (Event Client) :=
  (List.range n).map fun i => (Client.page i).linkKeep (lit "1")

theorem pagesLoggedIn_run : (server Client).Run .empty (pagesLoggedIn 3) :=
  ⟨rfl, rfl, rfl, trivial⟩

theorem closesAccount_iff_two : ∃ S,
    ((server Client).exec .empty (pagesLoggedIn 2)).sessions (lit "1") = some S ∧
      (ClosesAccount ((server Client).exec .empty (pagesLoggedIn 2)) (lit "1") S ↔
        S.sessions.length ≤ 1) :=
  ⟨_, rfl, closesAccount_iff rfl⟩

/-- **A page stays open** when an account with three pages is closed, and the account stays. -/
theorem page_left_open : ∃ s S, (server Client).Reachable .empty s ∧ s.sessions (lit "1") = some S ∧
    (∃ x, S.Attached x ∧ (stateAfter (closeSession (some (lit "1")) s)).channel x = .opened) ∧
    (stateAfter (closeSession (some (lit "1")) s)).sessions (lit "1") ≠ none ∧
    ¬ ClosesAccount s (lit "1") S := by
  set s := (server Client).exec .empty (pagesLoggedIn 3) with hs
  obtain ⟨S, hS, e₁, e₂, hpages, hfirst, hown, hopen⟩ : ∃ S, s.sessions (lit "1") = some S ∧
      ∃ e₁ e₂, S.sessions = [e₁, e₂] ∧ e₂.2.session ≠ e₁.2.session ∧ e₂.2.session ≠ S.session ∧
        s.channel e₂.2.session = .opened :=
    ⟨_, rfl, _, _, rfl, by decide, by decide, rfl⟩
  obtain ⟨hkept, hchannel⟩ := closeSession_of_two hS hpages
  refine ⟨s, S, ⟨_, pagesLoggedIn_run, rfl⟩, hS, ⟨e₂.2.session, .inr ⟨e₂, by simp [hpages], rfl⟩,
    (hchannel _).mpr ⟨hfirst, hown, hopen⟩⟩, by simp [hkept], ?_⟩
  intro h
  simp [h.removed] at hkept

end NettyTcpWeb
