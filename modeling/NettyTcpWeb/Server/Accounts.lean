import NettyTcpWeb.Server.Client
import NettyTcpWeb.Server.Registry

/-!
# Accounts and attached channels

The account of a channel is kept twice: as the attribute of the channel, and as the key under which
a session reaches the channel. The two agree until a channel that is attached to one account sends a
link-keep message for another one: the session of the first account keeps the channel.

## Main definitions

* `AccountsAgree`: an open channel is attached to no account but its own
* `Addressed`, `ReachesOnlyAccount`: the account that a message is sent to, and the messages that
  reach the channels of that account only
* `SwitchesAccount`: a link-keep message for one account from a channel of another one

## Main results

* `accountsAgree_iff`: **a message reaches only channels of its account** in exactly the runs in
  which no channel switches accounts
-/

namespace NettyTcpWeb

open Java (Text lit)
open StateExcept

variable {C : Type} [DecidableEq C] [Channel C]

/-! ## Messages to an account -/

/-- An open channel that is attached to an account has that account. -/
def AccountsAgree (s : Server C) : Prop :=
  ∀ r c, s.Attached r c → s.channel c = .opened → s.account c = some r

/-- The event is a message that is sent, or sent as a reply, to the account `r`. -/
def Addressed (s : Server C) (e : Event C) (r : Text) : Prop :=
  ∃ ctx now m w, e = .message ctx now m ∧
    convertToMessageWrapper now.text (s.account ctx.channel) m = .ok w ∧
    (w.isSend = true ∧ w.sessionId = some r ∨ w.isReply = true ∧ w.reSessionId = some r)

/-- What is sent to an account is written to channels with that account only. -/
def ReachesOnlyAccount (s : Server C) (e : Event C) : Prop :=
  ∀ r, Addressed s e r → ∀ c msg, .write c msg ∈ (step s e).out → s.account c = some r

/-- A link-keep message for one account arrives on a channel attached to another one. -/
def SwitchesAccount (s : Server C) : Event C → Prop
  | .message ctx _ m => m.type = lit "LK" ∧ ∃ r, r ≠ m.deviceId ∧ s.Attached r ctx.channel
  | _ => False

section Step

variable {s : Server C} {e : Event C}

/-- A login keeps the accounts in step unless its channel is attached elsewhere. -/
theorem accountsAgree_login {s₀ t : Server C} {ctx : ChannelHandlerContext C} {source : Source}
    {d : Text} {msg : Model} (hs₀ : AccountsAgree s₀) (hopen : s₀.channel ctx.channel = .opened)
    (h : Login s₀ ctx source d msg t) :
    AccountsAgree t ↔ ∀ r, r ≠ d → ¬ s₀.Attached r ctx.channel := by
  constructor
  · intro ht r hr hattached
    have hr' := ht r ctx.channel ((h.attached_of_ne hr).mpr hattached) (by rwa [h.channel])
    rw [h.account, Function.update_self] at hr'
    exact hr (Option.some.inj hr').symm
  · intro hfree r x hx hxopen
    rw [h.channel] at hxopen
    rw [h.account]
    by_cases hr : r = d
    · subst hr
      rcases h.attached hx with rfl | hx
      · exact Function.update_self _ _ _
      · by_cases hxc : x = ctx.channel
        · subst hxc
          exact Function.update_self _ _ _
        · rw [Function.update_of_ne hxc]
          exact hs₀ r x hx hxopen
    · have hx' := (h.attached_of_ne hr).mp hx
      have hxc : x ≠ ctx.channel := fun he => hfree r hr (he ▸ hx')
      rw [Function.update_of_ne hxc]
      exact hs₀ r x hx' hxopen

theorem accountsAgree_step (hwf : s.Wellformed) (hs : AccountsAgree s) (he : Enabled s e) :
    AccountsAgree (step s e) ↔ ¬ SwitchesAccount s e := by
  by_cases hLK : e.IsLinkKeep
  · obtain ⟨ctx, now, m, s₀, rfl, hm, hs₀, -, hlogin⟩ := hLK.exists_login hwf
    have hsame : ∀ r x, s₀.Attached r x ↔ s.Attached r x := by
      intro r x
      rw [Server.Attached, Server.Attached, hs₀.sessions]
    have hagree : AccountsAgree s₀ := by
      intro r x hx hopen
      rw [hs₀.account]
      exact hs r x ((hsame r x).mp hx) (hs₀.channel ▸ hopen)
    have hopen : s₀.channel ctx.channel = .opened := hs₀.channel ▸ he
    rw [accountsAgree_login hagree hopen hlogin]
    simp [SwitchesAccount, hm, hsame]
  · apply iff_of_true
    · intro r c hc hopen
      rw [account_of_step hwf hLK]
      exact hs r c (attached_of_step hwf hLK hc) (opened_of_step hwf hopen)
    · intro hswitch
      cases e with
      | message ctx now m => exact hLK hswitch.1
      | writerIdle | readerIdle | disconnect | channelInactive => exact hswitch

/-- What is sent to an account is written to open channels that are attached to it. -/
theorem attached_of_addressed {r : Text} {c : C} {msg : Model} (hwf : s.Wellformed)
    (h : Addressed s e r) (hwrite : .write c msg ∈ (step s e).out) :
    s.Attached r c ∧ s.channel c = .opened := by
  obtain ⟨ctx, now, m, w, rfl, hconv, hroute⟩ := h
  obtain ⟨b, hstep⟩ := step_message s ctx now m
  rw [hstep, hconv] at hwrite
  have hd := sessionId_of_convertToMessageWrapper hconv
  have hpushed : ∀ msg₀, .write c msg ∈
      (Server.push { s with builder := b, out := [] } r msg₀).out →
        s.Attached r c ∧ s.channel c = .opened := by
    intro msg₀ hmem
    rcases Server.mem_push hmem with hnil | ⟨hopen, -, S, hS, hc⟩
    · cases hnil
    · exact ⟨⟨S, hS, (Session.mem_channels (hwf r S hS)).mp hc⟩, hopen⟩
  rcases hroute with ⟨hsend, hr⟩ | ⟨hreply, hr⟩
  · obtain ⟨sender, -, hbody⟩ := body_of_convertToMessageWrapper hconv (.inr (.inl hsend))
    simp only [bind_apply, raising_ok, receiveMessages_of_send hsend] at hwrite
    rw [pushMessage_apply (by exact hr) (by exact hbody)] at hwrite
    exact hpushed _ hwrite
  · obtain ⟨sender, -, hbody⟩ := body_of_convertToMessageWrapper hconv (.inl hreply)
    simp only [bind_apply, raising_ok, receiveMessages_of_reply hreply, hd] at hwrite
    cases hS : s.sessions m.deviceId with
    | none =>
      rw [pushMessageTo_of_none (by exact hS)] at hwrite
      cases hwrite
    | some S =>
      rw [pushMessageTo_of_some (by exact hr) (by exact hbody) (by exact hS)] at hwrite
      exact hpushed _ hwrite

end Step

/-- **A message to an account reaches only channels of the account**, and every open channel is
attached to no account but its own, in every run in which no channel that is attached to one account
sends a link-keep message for another one. In any other run the accounts do not agree. -/
theorem accountsAgree_iff {es : List (Event C)} (hrun : (server C).Run .empty es) :
    ((server C).Throughout AccountsAgree .empty es ∧
        (server C).Along ReachesOnlyAccount .empty es) ↔
      (server C).Along (fun s e => ¬ SwitchesAccount s e) .empty es := by
  have hstart : AccountsAgree (Server.empty : Server C) := by
    rintro r c ⟨S, hS, -⟩
    cases hS
  have hiff := hrun.throughout_iff wellformed_empty hstart (fun _ e hwf _ => hwf.step e)
    fun _ _ hwf hs he => accountsAgree_step hwf hs he
  rw [← hiff]
  refine ⟨fun h => h.1, fun h => ⟨h, ?_⟩⟩
  refine hrun.along_of_throughout wellformed_empty h (fun _ e hwf _ => hwf.step e) ?_
  intro s e hwf hs he r haddressed c msg hwrite
  obtain ⟨hattached, hopen⟩ := attached_of_addressed hwf haddressed hwrite
  exact hs r c hattached hopen

/-- A page logs in for two accounts, and another page replies to the first one. -/
def pageSwitches : List (Event Client) :=
  [(Client.page 0).linkKeep (lit "1"), (Client.page 0).linkKeep (lit "2"),
    (Client.page 1).linkKeep (lit "3"),
    .message (Client.page 1).ctx ⟨0, []⟩ { deviceId := lit "3", receiver := lit "1" }]

theorem pageSwitches_run : (server Client).Run .empty pageSwitches := ⟨rfl, rfl, rfl, rfl, trivial⟩

theorem accountsAgree_iff_pageSwitches :
    ((server Client).Throughout AccountsAgree .empty pageSwitches ∧
        (server Client).Along ReachesOnlyAccount .empty pageSwitches) ↔
      (server Client).Along (fun s e => ¬ SwitchesAccount s e) .empty pageSwitches :=
  accountsAgree_iff pageSwitches_run

/-- **The page that switches accounts** stays attached to the first one, and what is sent to the
first account is written to it. -/
theorem page_attached_elsewhere : (server Client).Run .empty pageSwitches ∧
    ¬ (server Client).Throughout AccountsAgree .empty pageSwitches ∧
    ¬ (server Client).Along ReachesOnlyAccount .empty pageSwitches := by
  refine ⟨pageSwitches_run, ?_, ?_⟩
  · rintro ⟨-, -, h, -⟩
    exact absurd (h (lit "1") (.page 0) ⟨_, rfl, .inl rfl⟩ rfl) (by decide)
  · rintro ⟨-, -, -, h, -⟩
    refine absurd (h (lit "1") ⟨_, _, _, _, rfl, rfl, .inr ⟨rfl, rfl⟩⟩ (.page 0) _ (.head _)) ?_
    decide

end NettyTcpWeb
