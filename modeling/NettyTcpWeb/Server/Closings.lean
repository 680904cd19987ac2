import Mathlib.Data.Finset.Image
import Mathlib.Data.Fintype.Basic
import NettyTcpWeb.Library.Refinement
import NettyTcpWeb.Server.Client
import NettyTcpWeb.Server.Notices

/-!
# Concurrent closes

Channels are closed on different event loops. A close looks its session up, has it removed under the
lock of the session manager, and leaves the group; other closes may go on between these steps. Each
of them takes effect in one of its own steps all the same: where it finds no session, or where it
has it removed.

## Main definitions

* `ClosePc`, `closings`: the steps of a close, and the interleavings of several closes
* `closeEach`, `inOrder`: the closes one at a time
* `Server.Alike`: two states that differ in a few members of the group only
* `Session.left`: a session without some of its pages, if it has not been hit or a page is left

## Main results

* `close_alone`: the steps of one close are the close
* `closings_linearizable`: **concurrent closes are closes one at a time**, in the order of steps of
  their own
* `sessions_of_closings`: the sessions do not depend on that order
* `notices_of_closings`: each account that leaves is reported once
-/

namespace NettyTcpWeb

open Java (Text lit)
open StateExcept

variable {C ι : Type}

/-! ## The steps of a close -/

/-- How far a call of `close(ctx)` is, by the function it calls next. -/
inductive ClosePc where
  | getSession
  | removeSession (sessionId : Text)
  | leaveGroup
  | finished
deriving DecidableEq

/-- The call has taken effect: it has found no session, or has had it removed. -/
def ClosePc.Past (p : ClosePc) : Prop := p = .leaveGroup ∨ p = .finished
deriving Decidable

/-- The server, and how far each call is. -/
structure Closers (ι C : Type) where
  server : Server C
  pc : ι → ClosePc

/-- The server before the first step of the calls. -/
def Server.closers (s : Server C) : Closers ι C := ⟨s, fun _ => .getSession⟩

variable [DecidableEq C] [Channel C]

/-- A step of a call. `removeSession` is synchronized, so that it is one step. -/
def closeNext (now : Clock) (ctx : ChannelHandlerContext C) (s : Server C) :
    ClosePc → Server C × ClosePc
  | .getSession =>
    match s.account ctx.channel with
    -- the lookup of `null` raises
    | none => (s, .finished)
    | some sessionId =>
      match s.sessions sessionId with
      | none => (s, .finished)
      | some _ => (s, .removeSession sessionId)
  | .removeSession sessionId =>
    (stateAfter (removeSession now sessionId (Channel.asShortText ctx.channel) s), .leaveGroup)
  | .leaveGroup => (s.leaveGroup ctx.channel, .finished)
  | .finished => (s, .finished)

/-- The interleavings of the calls: at each step one of them goes on. -/
def closings [DecidableEq ι] (ctx : ι → ChannelHandlerContext C) :
    Automaton (Closers ι C) (ι × Clock) where
  enabled x e := x.pc e.1 ≠ .finished
  next x e :=
    { server := (closeNext e.2 (ctx e.1) x.server (x.pc e.1)).1
      pc := Function.update x.pc e.1 (closeNext e.2 (ctx e.1) x.server (x.pc e.1)).2 }

/-- The closes one at a time. -/
def closeEach (ctx : ι → ChannelHandlerContext C) (order : List (ι × Clock)) (s : Server C) :
    Server C :=
  order.foldl (fun t e => stateAfter (close e.2 (ctx e.1) t)) s

/-- The closes one at a time, with the calls that have been made; each is made once. -/
def inOrder (ctx : ι → ChannelHandlerContext C) :
    Automaton (Server C × List ι) (ι × Clock) where
  enabled u e := e.1 ∉ u.2
  next u e := (stateAfter (close e.2 (ctx e.1) u.1), u.2 ++ [e.1])

section Close

variable {s : Server C} {now : Clock} {ctx : ChannelHandlerContext C}

omit [Channel C] in
theorem removeSession_of_absent {a : Text} (nid : Text) (h : s.sessions a = none) :
    removeSession now a nid s = .ok () s := by
  simp [removeSession, getSession_some, h]

theorem stateAfter_close_of_some {a : Text} (ha : s.account ctx.channel = some a)
    (hin : s.sessions a ≠ none) : stateAfter (close now ctx s) =
      (stateAfter (removeSession now a (Channel.asShortText ctx.channel) s)).leaveGroup
        ctx.channel := by
  obtain ⟨S, hS⟩ := Option.ne_none_iff_exists'.mp hin
  obtain ⟨t, ht⟩ := removeSession_returns now a (Channel.asShortText ctx.channel) s
  rw [close_of_some ha hS, ht]
  rfl

@[simp] theorem closeNext_removeSession (a : Text) : closeNext now ctx s (.removeSession a) =
    (stateAfter (removeSession now a (Channel.asShortText ctx.channel) s), .leaveGroup) := rfl

@[simp] theorem closeNext_leaveGroup :
    closeNext now ctx s .leaveGroup = (s.leaveGroup ctx.channel, .finished) := rfl

@[simp] theorem closeNext_finished : closeNext now ctx s .finished = (s, .finished) := rfl

theorem closeNext_of_absent (h : ∀ a, s.account ctx.channel = some a → s.sessions a = none) :
    closeNext now ctx s .getSession = (s, .finished) := by
  unfold closeNext
  cases ha : s.account ctx.channel with
  | none => rfl
  | some a => simp only [h a ha]

theorem closeNext_of_some {a : Text} (ha : s.account ctx.channel = some a)
    (hin : s.sessions a ≠ none) :
    closeNext now ctx s .getSession = (s, .removeSession a) := by
  obtain ⟨S, hS⟩ := Option.ne_none_iff_exists'.mp hin
  simp only [closeNext, ha, hS]

/-- The steps of a call on its own are `close`. -/
theorem close_alone [DecidableEq ι] (ctx : ι → ChannelHandlerContext C) (i : ι) (s : Server C)
    (now : Clock) : ((closings ctx).exec s.closers (List.replicate 3 (i, now))).server =
      stateAfter (close now (ctx i) s) := by
  by_cases habsent : ∀ a, s.account (ctx i).channel = some a → s.sessions a = none
  · have hfirst : closeNext now (ctx i) s .getSession = _ := closeNext_of_absent habsent
    rw [close_of_absent habsent]
    simp [Automaton.exec, closings, Server.closers, hfirst, List.replicate]
  · obtain ⟨a, ha, hin⟩ : ∃ a, s.account (ctx i).channel = some a ∧ s.sessions a ≠ none := by
      simpa using habsent
    have hfirst : closeNext now (ctx i) s .getSession = _ := closeNext_of_some ha hin
    rw [stateAfter_close_of_some ha hin]
    simp [Automaton.exec, closings, Server.closers, hfirst, List.replicate]

end Close

/-! ## States that differ in members of the group -/

section Alike

omit [DecidableEq C] [Channel C]

/-- Outputs that are the same, up to members among the channels `D`. -/
inductive Output.Alike (D : C → Prop) : Output C → Output C → Prop
  | write (c : C) (msg : Model) : Output.Alike D (.write c msg) (.write c msg)
  | broadcast (msg : Model) {members members' : List C}
      (h : ∀ c, ¬ D c → (c ∈ members ↔ c ∈ members')) :
      Output.Alike D (.broadcast msg members) (.broadcast msg members')

/-- The states are the same, up to members of the group among the channels `D`; the members that
only the first one has are among the channels `P`. -/
structure Server.Alike (D P : C → Prop) (s t : Server C) : Prop where
  sessions : s.sessions = t.sessions
  account : s.account = t.account
  heartbeat : s.heartbeat = t.heartbeat
  builder : s.builder = t.builder
  channel : s.channel = t.channel
  out : List.Forall₂ (Output.Alike D) s.out t.out
  members : ∀ c, ¬ D c → (c ∈ s.group ↔ c ∈ t.group)
  extra : ∀ c ∈ s.group, c ∈ t.group ∨ P c

variable {D P Q : C → Prop} {s t : Server C} {a : Text} {c : C}

theorem Output.Alike.refl (o : Output C) : o.Alike D o := by
  cases o with
  | write c msg => exact .write c msg
  | broadcast msg members => exact .broadcast msg fun _ _ => Iff.rfl

theorem Output.Alike.isNotice {o o' : Output C} (h : o.Alike D o') (a : Text) :
    o.isNotice a = o'.isNotice a := by
  cases h <;> rfl

namespace Server.Alike

theorem refl (s : Server C) : s.Alike D P s where
  sessions := rfl
  account := rfl
  heartbeat := rfl
  builder := rfl
  channel := rfl
  out := List.forall₂_same.mpr fun o _ => .refl o
  members _ _ := Iff.rfl
  extra _ hc := .inl hc

theorem wellformed [Channel C] (h : s.Alike D P t) (hs : s.Wellformed) : t.Wellformed :=
  fun key S hS => hs key S (h.sessions ▸ hS)

theorem mono (h : s.Alike D P t) (hPQ : ∀ c, P c → Q c) : s.Alike D Q t :=
  { h with extra := fun c hc => (h.extra c hc).imp_right (hPQ c) }

theorem countP_isNotice (h : s.Alike D P t) (a : Text) :
    s.out.countP (·.isNotice a) = t.out.countP (·.isNotice a) := by
  have hout := h.out
  generalize s.out = xs at hout
  generalize t.out = ys at hout
  induction hout with
  | nil => rfl
  | cons ho _ ih => rw [List.countP_cons, List.countP_cons, ih, ho.isNotice]

theorem broadcast (h : s.Alike D P t) (msg : Model) :
    (s.broadcast msg).Alike D P (t.broadcast msg) :=
  { h with out := List.rel_append h.out (.cons (.broadcast msg h.members) .nil) }

theorem store (h : s.Alike D P t) (a : Text) (S : Session C) :
    (s.store a S).Alike D P (t.store a S) :=
  { h with sessions := by simp only [Server.store, h.sessions] }

theorem drop (h : s.Alike D P t) (a : Text) : (s.drop a).Alike D P (t.drop a) :=
  { h with sessions := by simp only [Server.drop, h.sessions] }

variable [DecidableEq C]

theorem closeChannel (h : s.Alike D P t) (y : C) :
    (s.closeChannel y).Alike D P (t.closeChannel y) :=
  { h with
    channel := by simp only [Server.closeChannel, h.channel]
    members := fun c hc => by rw [mem_closeChannel, mem_closeChannel, h.members c hc]
    extra := fun c hc => by
      rw [mem_closeChannel] at hc ⊢
      exact (h.extra c hc.1).imp_left fun ht => ⟨ht, hc.2⟩ }

/-- A channel leaves the second group first: in the first one it is left behind. -/
theorem leaveGroup_right (h : s.Alike D P t) (hc : D c) (hPQ : ∀ x, P x → Q x) (hQ : Q c) :
    s.Alike D Q (t.leaveGroup c) :=
  { h with
    members := fun x hx => by
      have hne : x ≠ c := fun he => hx (he ▸ hc)
      rw [h.members x hx, mem_leaveGroup, and_iff_left hne]
    extra := fun x hx => by
      rw [mem_leaveGroup]
      by_cases hxc : x = c
      · exact .inr (hxc ▸ hQ)
      · exact (h.extra x hx).imp (⟨·, hxc⟩) (hPQ x) }

/-- A channel that the second group has left leaves the first one. -/
theorem leaveGroup_left (h : s.Alike D P t) (hc : D c) (hPQ : ∀ x, P x → x = c ∨ Q x) :
    (s.leaveGroup c).Alike D Q t :=
  { h with
    members := fun x hx => by
      have hne : x ≠ c := fun he => hx (he ▸ hc)
      rw [mem_leaveGroup, h.members x hx, and_iff_left hne]
    extra := fun x hx => by
      rw [mem_leaveGroup] at hx
      exact (h.extra x hx.1).imp_right fun hP => (hPQ x hP).resolve_left hx.2 }

variable [Channel C]

/-- `removeSession` does the same to states that are alike. -/
theorem removeSession (h : s.Alike D P t) (hwf : s.Wellformed) (now : Clock) (a nid : Text) :
    (stateAfter (removeSession now a nid s)).Alike D P
      (stateAfter (removeSession now a nid t)) := by
  cases hS : s.sessions a with
  | none =>
    rw [removeSession_of_absent nid hS, removeSession_of_absent nid (h.sessions ▸ hS)]
    exact h
  | some S =>
    have hT : t.sessions a = some S := h.sessions ▸ hS
    cases hclosing : S.closing nid with
    | none =>
      rw [removeSession_of_closing_none hS hclosing, removeSession_of_closing_none hT hclosing]
      exact h
    | some left =>
      obtain ⟨y, S'⟩ := left
      have hSwf := hwf a S hS
      obtain ⟨msg, hmsg, hs⟩ := removeSession_of_closing_some now hSwf hS hclosing
      obtain ⟨msg', hmsg', ht⟩ := removeSession_of_closing_some now hSwf hT hclosing
      obtain rfl : msg = msg' := Except.ok.inj (hmsg.symm.trans hmsg')
      rw [hs, ht]
      show (ite _ _ _ : Server C).Alike D P (ite _ _ _)
      split_ifs with hpages
      · exact ((h.closeChannel y).drop a).broadcast msg
      · exact (h.store a S').closeChannel y

end Server.Alike

end Alike

/-! ## What is left of a session -/

section Left

omit [DecidableEq C] [Channel C]

/-- What is left of a session when the channel under the short id is closed. -/
def Session.closed (S : Session C) (nid : Text) : Option (Session C) :=
  match S.closing nid with
  | none => some S
  | some (_, S') => if S'.sessions = [] then none else some S'

/-- The session without the pages under the short ids, but for one under its own short id. -/
def Session.keeping (S : Session C) (nids : Finset Text) : Session C :=
  { S with sessions := S.sessions.filter fun e => decide (e.1 = S.nid ∨ e.1 ∉ nids) }

/-- What is left of a session behind closes with the short ids: it goes if one of them hits the
session, and no page is left. The session of a page is hit under its own short id and those of its
pages, and the session of a watch under any short id. -/
def Session.left (S : Session C) (nids : Finset Text) : Option (Session C) :=
  if (S.keeping nids).sessions = [] ∧ ∃ nid ∈ nids, (S.closing nid).isSome then none
  else some (S.keeping nids)

variable {S : Session C} {nids : Finset Text} {nid : Text}

theorem Session.left_empty : S.left ∅ = some S := by
  have hkeep : S.keeping ∅ = S := by
    simp only [Session.keeping, Finset.notMem_empty, not_false_eq_true, or_true, decide_true,
      List.filter_true]
    cases S
    rfl
  simp [Session.left, hkeep]

theorem Session.keeping_insert (hnid : S.nid ≠ nid) :
    S.keeping (insert nid nids) = (S.keeping nids).without nid := by
  simp only [Session.keeping, Session.without, HashMap.remove, List.filter_filter]
  congr 2
  ext e
  by_cases he : e.1 = nid
  · simp [he, hnid.symm]
  · simp [he]

theorem Session.get_keeping : HashMap.get (S.keeping nids).sessions nid =
    if nid = S.nid ∨ nid ∉ nids then HashMap.get S.sessions nid else none := by
  rw [Session.keeping, HashMap.get_filter fun k => decide (k = S.nid ∨ k ∉ nids)]
  simp only [decide_eq_true_eq]

theorem Session.keeping_insert_own (hown : S.nid = nid) :
    S.keeping (insert nid nids) = S.keeping nids := by
  simp only [Session.keeping]
  congr 2
  ext e
  by_cases he : e.1 = nid
  · simp [he, hown]
  · simp [he]

theorem Session.left_of_ne_nil (h : (S.keeping nids).sessions ≠ []) :
    S.left nids = some (S.keeping nids) :=
  if_neg fun hleft => h hleft.1

theorem Session.left_of_hit (hmem : nid ∈ nids) (hhit : (S.closing nid).isSome) : S.left nids =
    if (S.keeping nids).sessions = [] then none else some (S.keeping nids) := by
  have hhit : ∃ n ∈ nids, (S.closing n).isSome := ⟨nid, hmem, hhit⟩
  simp only [Session.left, hhit, and_true]

/-- The own channel is closed, or that of a session without pages. -/
theorem Session.left_insert_own (hkeep : S.keeping (insert nid nids) = S.keeping nids)
    (hown : S.source = .socket ∨ S.nid = nid) :
    (S.left nids).bind (·.closed nid) = S.left (insert nid nids) := by
  have hclosed : (S.keeping nids).closed nid =
      if (S.keeping nids).sessions = [] then none else some (S.keeping nids) := by
    have hown' : (S.keeping nids).source = .socket ∨ (S.keeping nids).nid = nid := hown
    simp only [Session.closed, Session.closing, if_pos hown']
  have hhit : (S.closing nid).isSome := by
    rw [Session.closing, if_pos hown]
    rfl
  rw [left_of_hit (Finset.mem_insert_self nid nids) hhit, hkeep, ← hclosed, Session.left]
  split_ifs with hgone
  · rw [hclosed, if_pos hgone.1]
    rfl
  · rfl

/-- A page is closed, if there still is one under the short id. -/
theorem Session.left_insert_page (hown : ¬ (S.source = .socket ∨ S.nid = nid)) :
    (S.left nids).bind (·.closed nid) = S.left (insert nid nids) := by
  have hkeep : S.keeping (insert nid nids) = (S.keeping nids).without nid :=
    keeping_insert (not_or.mp hown).2
  have hown' : ¬ ((S.keeping nids).source = .socket ∨ (S.keeping nids).nid = nid) := hown
  cases hget : HashMap.get (S.keeping nids).sessions nid with
  | none =>
    have hclosed : (S.keeping nids).closed nid = some (S.keeping nids) := by
      simp only [Session.closed, Session.closing, if_neg hown', hget, Option.map_none]
    have hhit : (∃ n ∈ insert nid nids, (S.closing n).isSome) ↔
        ∃ n ∈ nids, (S.closing n).isSome := by
      simp only [Finset.exists_mem_insert]
      refine or_iff_right_of_imp fun hnew => ⟨nid, ?_, hnew⟩
      by_contra hmem
      rw [get_keeping, if_pos (.inr hmem)] at hget
      simp [Session.closing, if_neg hown, hget] at hnew
    simp only [Session.left, hkeep, Session.without_eq_self hget, hhit]
    split_ifs
    · rfl
    · exact hclosed
  | some page =>
    have hclosed : (S.keeping nids).closed nid =
        if ((S.keeping nids).without nid).sessions = [] then none
        else some ((S.keeping nids).without nid) := by
      simp only [Session.closed, Session.closing, if_neg hown', hget, Option.map_some]
    have hhit : (S.closing nid).isSome := by
      rw [get_keeping] at hget
      split_ifs at hget
      simp [Session.closing, if_neg hown, hget]
    rw [left_of_hit (Finset.mem_insert_self nid nids) hhit, hkeep,
      left_of_ne_nil (List.ne_nil_of_mem (HashMap.mem_of_get hget))]
    exact hclosed

/-- One more channel is closed. -/
theorem Session.left_insert [Channel C] {a : Text} (hwf : S.Wellformed a) :
    (S.left nids).bind (·.closed nid) = S.left (insert nid nids) := by
  by_cases hown : S.source = .socket ∨ S.nid = nid
  · refine left_insert_own ?_ hown
    rcases hown with hsocket | hnid
    · simp only [Session.keeping, hwf.socket hsocket, List.filter_nil]
    · exact keeping_insert_own hnid
  · exact left_insert_page hown

/-- A close changes the session of the account of its channel. -/
theorem Closing.sessions_eq [DecidableEq C] [Channel C] {s t : Server C} {c : C}
    (h : Closing s c t) (a : Text) : t.sessions a = if s.account c = some a
      then (s.sessions a).bind (·.closed (Channel.asShortText c)) else s.sessions a := by
  by_cases ha : s.account c = some a
  · rw [if_pos ha]
    cases hS : s.sessions a with
    | none =>
      cases h with
      | absent => exact hS
      | stale a' S ha' hS' | kept a' S S' y ha' hS' | dropped a' S S' y now msg ha' hS' =>
        obtain rfl := Option.some.inj (ha.symm.trans ha')
        cases hS.symm.trans hS'
    | some S =>
      rw [Option.bind_some, Session.closed]
      rcases h.of_some ha hS with ⟨hnone, rfl⟩ | ⟨y, S', hsome, hleft⟩
      · rw [hnone]
        exact hS
      · rw [hsome]
        rcases hleft with ⟨hpages, rfl⟩ | ⟨hpages, now, msg, -, rfl⟩
        · exact (Function.update_self a (some S') s.sessions).trans (if_neg hpages).symm
        · exact (Function.update_self a none s.sessions).trans (if_pos hpages).symm
  · rw [if_neg ha]
    exact h.sessions_of_ne ha

end Left

/-! ## Closes one at a time -/

section Each

variable {ctx : ι → ChannelHandlerContext C} {s : Server C}

theorem exec_inOrder (u : Server C × List ι) (order : List (ι × Clock)) :
    (inOrder ctx).exec u order = (closeEach ctx order u.1, u.2 ++ order.map Prod.fst) := by
  induction order generalizing u with
  | nil => exact Prod.ext rfl (List.append_nil u.2).symm
  | cons e order ih =>
    refine (ih _).trans (Prod.ext rfl ?_)
    rw [List.map_cons, inOrder, List.append_assoc, List.singleton_append]

theorem nodup_of_run_inOrder {order : List (ι × Clock)} (h : (inOrder ctx).Run (s, []) order) :
    (order.map Prod.fst).Nodup := by
  have hstep : ∀ u e, u.2.Nodup → (inOrder ctx).enabled u e →
      ((inOrder ctx).next u e).2.Nodup := fun u e hu he =>
    List.nodup_append_comm.mp (List.nodup_cons.mpr ⟨he, hu⟩)
  have hnodup := (h.invariant List.nodup_nil hstep).exec
  simpa only [exec_inOrder, List.nil_append] using hnodup

theorem closeEach_concat (order : List (ι × Clock)) (e : ι × Clock) :
    closeEach ctx (order ++ [e]) s = stateAfter (close e.2 (ctx e.1) (closeEach ctx order s)) :=
  List.foldl_concat ..

theorem wellformed_closeEach (hwf : s.Wellformed) (order : List (ι × Clock)) :
    (closeEach ctx order s).Wellformed := by
  induction order using List.reverseRecOn with
  | nil => exact hwf
  | append_singleton order e ih =>
    rw [closeEach_concat]
    exact ih.closing (close_closing e.2 (ctx e.1) ih)

/-- The last one of the closes. -/
theorem closing_closeEach (hwf : s.Wellformed) (order : List (ι × Clock)) (e : ι × Clock) :
    Closing (closeEach ctx order s) (ctx e.1).channel (closeEach ctx (order ++ [e]) s) := by
  rw [closeEach_concat]
  exact close_closing e.2 (ctx e.1) (wellformed_closeEach hwf order)

theorem account_closeEach (hwf : s.Wellformed) (order : List (ι × Clock)) :
    (closeEach ctx order s).account = s.account := by
  induction order using List.reverseRecOn with
  | nil => rfl
  | append_singleton order e ih =>
    rw [(closing_closeEach hwf order e).account, ih]

variable [DecidableEq ι]

/-- The short ids of the calls whose channels belong to the account. -/
def shortIds (ctx : ι → ChannelHandlerContext C) (s : Server C) (a : Text) (calls : Finset ι) :
    Finset Text :=
  (calls.filter fun i => s.account (ctx i).channel = some a).image fun i =>
    Channel.asShortText (ctx i).channel

omit [DecidableEq C] in
theorem shortIds_insert (a : Text) (calls : Finset ι) : shortIds ctx s a (insert i calls) =
    if s.account (ctx i).channel = some a
      then insert (Channel.asShortText (ctx i).channel) (shortIds ctx s a calls)
      else shortIds ctx s a calls := by
  rw [shortIds, Finset.filter_insert]
  split_ifs
  · rw [Finset.image_insert, shortIds]
  · rfl

/-- The sessions behind closes do not depend on their order. -/
theorem sessions_closeEach (hwf : s.Wellformed) (order : List (ι × Clock)) (a : Text) :
    (closeEach ctx order s).sessions a =
      (s.sessions a).bind (·.left (shortIds ctx s a (order.map Prod.fst).toFinset)) := by
  induction order using List.reverseRecOn with
  | nil =>
    have hnone : shortIds ctx s a ([] : List ι).toFinset = ∅ := rfl
    simp only [List.map_nil, hnone, Session.left_empty, Option.bind_fun_some]
    rfl
  | append_singleton order e ih =>
    have hcalls : ((order ++ [e]).map Prod.fst).toFinset =
        insert e.1 (order.map Prod.fst).toFinset := by
      ext i
      simp
    rw [(closing_closeEach hwf order e).sessions_eq, account_closeEach hwf, ih, hcalls,
      shortIds_insert]
    split_ifs
    · cases hS : s.sessions a with
      | none => rfl
      | some S => exact Session.left_insert (hwf a S hS)
    · rfl

/-- Closes report each account that leaves once. -/
theorem notices_closeEach (hwf : s.Wellformed) (order : List (ι × Clock)) (a : Text) :
    (s.sessions a ≠ none ∧ (closeEach ctx order s).sessions a = none →
        (closeEach ctx order s).out.countP (·.isNotice a) = s.out.countP (·.isNotice a) + 1) ∧
      (¬ (s.sessions a ≠ none ∧ (closeEach ctx order s).sessions a = none) →
        (closeEach ctx order s).out.countP (·.isNotice a) = s.out.countP (·.isNotice a)) := by
  induction order using List.reverseRecOn with
  | nil => exact ⟨fun h => absurd h.2 h.1, fun _ => rfl⟩
  | append_singleton order e ih =>
    have hclosing : Closing _ _ (closeEach ctx (order ++ [e]) s) := closing_closeEach hwf order e
    obtain ⟨hleaves, hstays⟩ := notices_closing hclosing a
    have hnone : (closeEach ctx order s).sessions a = none →
        (closeEach ctx (order ++ [e]) s).sessions a = none := by
      intro hnone
      rw [hclosing.sessions_eq, hnone]
      exact ite_self none
    have hfirst : s.sessions a = none → (closeEach ctx order s).sessions a = none := by
      intro hnone
      rw [sessions_closeEach hwf, hnone]
      rfl
    by_cases hgone : (closeEach ctx order s).sessions a = none
    · rw [hstays fun h => h.1 hgone]
      simpa only [hnone hgone, hgone] using ih
    · rw [← ih.2 fun h => hgone h.2]
      exact ⟨fun h => hleaves ⟨hgone, h.2⟩,
        fun h => hstays fun h' => h ⟨fun hs => hgone (hfirst hs), h'.2⟩⟩

end Each

/-! ## Linearization -/

section Runs

variable {ctx : ι → ChannelHandlerContext C}

/-- The channel is the one of a call. -/
def Caller (ctx : ι → ChannelHandlerContext C) (c : C) : Prop := ∃ i, c = (ctx i).channel

/-- A call is about to leave the group with the channel. -/
def Closers.Leaving (ctx : ι → ChannelHandlerContext C) (x : Closers ι C) (c : C) : Prop :=
  ∃ i, x.pc i = .leaveGroup ∧ c = (ctx i).channel

/-- What the concurrent closes have done is what the calls that have taken effect do one at a time,
but for the channels that are still to leave the group. -/
structure Linearized (ctx : ι → ChannelHandlerContext C) (x : Closers ι C)
    (u : Server C × List ι) : Prop where
  wellformed : u.1.Wellformed
  alike : x.server.Alike (Caller ctx) (x.Leaving ctx) u.1
  past : ∀ i, i ∈ u.2 ↔ (x.pc i).Past
  found : ∀ i a, x.pc i = .removeSession a → u.1.account (ctx i).channel = some a

omit [DecidableEq C] in
theorem linearized_closers {s : Server C} (hwf : s.Wellformed) :
    Linearized ctx s.closers (s, []) where
  wellformed := hwf
  alike := .refl s
  past i := by simp [Server.closers, ClosePc.Past]
  found i a h := by cases h

variable [DecidableEq ι] {x : Closers ι C} {u v : Server C × List ι} {i : ι} {now : Clock}
  {s : Server C} {p : ClosePc}

theorem closings_next (h : closeNext now (ctx i) x.server (x.pc i) = (s, p)) :
    (closings ctx).next x (i, now) = ⟨s, Function.update x.pc i p⟩ := by
  simp only [closings, h]

omit [DecidableEq C] [Channel C] in
theorem Closers.Leaving.update {c : C} (h : x.Leaving ctx c) (i : ι) (s : Server C) (p : ClosePc) :
    (x.pc i = .leaveGroup ∧ c = (ctx i).channel) ∨
      Closers.Leaving ctx ⟨s, Function.update x.pc i p⟩ c := by
  obtain ⟨j, hj, rfl⟩ := h
  by_cases hji : j = i
  · subst hji
    exact .inl ⟨hj, rfl⟩
  · exact .inr ⟨j, (Function.update_of_ne hji p x.pc).trans hj, rfl⟩

omit [DecidableEq C] in
/-- What a step of the call `i` leaves to be shown. -/
theorem Linearized.update (h : Linearized ctx x u) (hwf : v.1.Wellformed)
    (haccount : v.1.account = u.1.account) (hkept : (x.pc i).Past → p.Past)
    (hpast : ∀ j, j ∈ v.2 ↔ j ∈ u.2 ∨ j = i ∧ p.Past)
    (hfound : ∀ a, p = .removeSession a → u.1.account (ctx i).channel = some a)
    (halike : s.Alike (Caller ctx) (Closers.Leaving ctx ⟨s, Function.update x.pc i p⟩) v.1) :
    Linearized ctx ⟨s, Function.update x.pc i p⟩ v where
  wellformed := hwf
  alike := halike
  past j := by
    rw [hpast, h.past]
    by_cases hj : j = i
    · subst hj
      simpa using hkept
    · simp [hj]
  found j a hj := by
    rw [haccount]
    by_cases hji : j = i
    · subst hji
      exact hfound a (by simpa using hj)
    · exact h.found j a (by simpa [hji] using hj)

/-- A call that finds no session is over; a close finds none either. -/
theorem linearized_of_absent (h : Linearized ctx x u) (hp : x.pc i = .getSession)
    (habsent : ∀ a, x.server.account (ctx i).channel = some a → x.server.sessions a = none) :
    Linearized ctx ((closings ctx).next x (i, now)) ((inOrder ctx).next u (i, now)) := by
  have hclose : (inOrder ctx).next u (i, now) = (u.1, u.2 ++ [i]) := by
    rw [h.alike.account, h.alike.sessions] at habsent
    simp only [inOrder, close_of_absent habsent]
  rw [hclose, closings_next (by rw [hp, closeNext_of_absent habsent])]
  refine h.update h.wellformed rfl (fun _ => .inr rfl) ?_ nofun (h.alike.mono fun c hc => ?_)
  · simp [ClosePc.Past]
  · refine (hc.update i _ _).resolve_left ?_
    simp [hp]

/-- A call that finds a session goes on to have it removed. -/
theorem linearized_of_some (h : Linearized ctx x u) (hp : x.pc i = .getSession) {a : Text}
    (ha : x.server.account (ctx i).channel = some a) (hin : x.server.sessions a ≠ none) :
    Linearized ctx ((closings ctx).next x (i, now)) u := by
  rw [closings_next (by rw [hp, closeNext_of_some ha hin])]
  refine h.update h.wellformed rfl ?_ ?_ ?_ (h.alike.mono fun c hc => ?_)
  · simp [hp, ClosePc.Past]
  · simp [ClosePc.Past]
  · rintro a' ha'
    obtain rfl := ClosePc.removeSession.inj ha'
    exact h.alike.account ▸ ha
  · refine (hc.update i _ _).resolve_left ?_
    simp [hp]

/-- A close takes effect where the session is removed, also if another call has removed it. -/
theorem linearized_of_removeSession (h : Linearized ctx x u) {a : Text}
    (hp : x.pc i = .removeSession a) :
    Linearized ctx ((closings ctx).next x (i, now)) ((inOrder ctx).next u (i, now)) := by
  have ha := h.found i a hp
  have hclosing := close_closing now (ctx i) h.wellformed
  have hwf : x.server.Wellformed := fun key S hS => h.wellformed key S (h.alike.sessions ▸ hS)
  rw [closings_next (by rw [hp, closeNext_removeSession])]
  refine h.update (h.wellformed.closing hclosing) hclosing.account (fun _ => .inl rfl) ?_ nofun ?_
  · simp [inOrder, ClosePc.Past]
  set y : Closers ι C := ⟨_, Function.update x.pc i .leaveGroup⟩ with hy
  have hleaving : ∀ c, x.Leaving ctx c → y.Leaving ctx c := by
    intro c hc
    refine (hc.update i _ _).resolve_left ?_
    simp [hp]
  have hremoved := h.alike.removeSession hwf now a (Channel.asShortText (ctx i).channel)
  by_cases hin : u.1.sessions a = none
  · have habsent : ∀ a', u.1.account (ctx i).channel = some a' → u.1.sessions a' = none := by
      rintro a' ha'
      obtain rfl := Option.some.inj (ha.symm.trans ha')
      exact hin
    rw [removeSession_of_absent _ hin] at hremoved
    simp only [inOrder, close_of_absent habsent]
    exact hremoved.mono hleaving
  · simp only [inOrder, stateAfter_close_of_some ha hin]
    refine hremoved.leaveGroup_right ⟨i, rfl⟩ hleaving ⟨i, ?_, rfl⟩
    simp [hy]

/-- A call that has had its session removed leaves the group. -/
theorem linearized_of_leaveGroup (h : Linearized ctx x u) (hp : x.pc i = .leaveGroup) :
    Linearized ctx ((closings ctx).next x (i, now)) u := by
  rw [closings_next (by rw [hp, closeNext_leaveGroup])]
  refine h.update h.wellformed rfl (fun _ => .inr rfl) (fun j => ?_) nofun ?_
  · refine (or_iff_left_of_imp ?_).symm
    rintro ⟨rfl, -⟩
    exact (h.past j).mpr (.inl hp)
  · refine h.alike.leaveGroup_left ⟨i, rfl⟩ fun c hc => ?_
    exact (hc.update i _ _).imp_left And.right

/-- A step of a call is matched by its close, or by nothing. -/
theorem linearized_next (h : Linearized ctx x u) (now : Clock) (hp : x.pc i ≠ .finished) :
    Linearized ctx ((closings ctx).next x (i, now)) u ∨ i ∉ u.2 ∧
      Linearized ctx ((closings ctx).next x (i, now)) ((inOrder ctx).next u (i, now)) := by
  have hnot : ¬ (x.pc i).Past → i ∉ u.2 := fun hpast hi => hpast ((h.past i).mp hi)
  cases hpc : x.pc i with
  | getSession =>
    by_cases habsent :
        ∀ a, x.server.account (ctx i).channel = some a → x.server.sessions a = none
    · exact .inr ⟨hnot (by simp [hpc, ClosePc.Past]), linearized_of_absent h hpc habsent⟩
    · obtain ⟨a, ha, hin⟩ : ∃ a, x.server.account (ctx i).channel = some a ∧
          x.server.sessions a ≠ none := by simpa using habsent
      exact .inl (linearized_of_some h hpc ha hin)
  | removeSession a =>
    exact .inr ⟨hnot (by simp [hpc, ClosePc.Past]), linearized_of_removeSession h hpc⟩
  | leaveGroup => exact .inl (linearized_of_leaveGroup h hpc)
  | finished => exact absurd hpc hp

/-! ## Concurrent closes -/

theorem exists_linearized (hwf : s.Wellformed) {es : List (ι × Clock)}
    (hrun : (closings ctx).Run s.closers es) : ∃ order, order.Sublist es ∧
      (order.map Prod.fst).Nodup ∧ Linearized ctx ((closings ctx).exec s.closers es)
        (closeEach ctx order s, order.map Prod.fst) := by
  obtain ⟨order, hsub, hB, hlast⟩ := hrun.linearize (B := inOrder ctx) (linearized_closers hwf)
    fun x u e h he => linearized_next h e.2 he
  rw [exec_inOrder] at hlast
  exact ⟨order, hsub, nodup_of_run_inOrder hB, hlast⟩

/-- **Concurrent closes are closes one at a time**, of the calls that have taken effect, each in the
place of a step of its own. The states behind them, and the notices they have sent, differ only in
members of the group among the channels of the calls; a channel that is a member only behind the
concurrent closes is about to leave. -/
theorem closings_linearizable (hs : (server C).Reachable .empty s)
    {es : List (ι × Clock)} (hrun : (closings ctx).Run s.closers es) :
    ∃ order, order.Sublist es ∧ (order.map Prod.fst).Nodup ∧
      (∀ i, i ∈ order.map Prod.fst ↔ (((closings ctx).exec s.closers es).pc i).Past) ∧
      ((closings ctx).exec s.closers es).server.Alike (Caller ctx)
        (((closings ctx).exec s.closers es).Leaving ctx) (closeEach ctx order s) := by
  obtain ⟨order, hsub, hnodup, hlast⟩ := exists_linearized (wellformed_of_reachable hs) hrun
  exact ⟨order, hsub, hnodup, hlast.past, hlast.alike⟩

/-- **The sessions do not depend on the interleaving.** At every moment a session is without the
pages under the short ids of the calls that have taken effect, and it is gone if one of them has hit
the session and no page is left. -/
theorem sessions_of_closings [Fintype ι] (hs : (server C).Reachable .empty s)
    {es : List (ι × Clock)} (hrun : (closings ctx).Run s.closers es) (a : Text) :
    ((closings ctx).exec s.closers es).server.sessions a = (s.sessions a).bind (·.left
      (shortIds ctx s a (Finset.univ.filter fun i =>
        (((closings ctx).exec s.closers es).pc i).Past))) := by
  obtain ⟨order, -, -, hlast⟩ := exists_linearized (wellformed_of_reachable hs) hrun
  have hcalls : (order.map Prod.fst).toFinset = Finset.univ.filter fun i =>
      (((closings ctx).exec s.closers es).pc i).Past := by
    ext i
    rw [List.mem_toFinset, hlast.past, Finset.mem_filter_univ]
  rw [hlast.alike.sessions, sessions_closeEach (wellformed_of_reachable hs), hcalls]

/-- **Each account that leaves is reported once**, whatever the interleaving, and no other one. -/
theorem notices_of_closings (hs : (server C).Reachable .empty s)
    {es : List (ι × Clock)} (hrun : (closings ctx).Run s.closers es) (a : Text) :
    let t := ((closings ctx).exec s.closers es).server
    (s.sessions a ≠ none ∧ t.sessions a = none →
        t.out.countP (·.isNotice a) = s.out.countP (·.isNotice a) + 1) ∧
      (¬ (s.sessions a ≠ none ∧ t.sessions a = none) →
        t.out.countP (·.isNotice a) = s.out.countP (·.isNotice a)) := by
  obtain ⟨order, -, -, hlast⟩ := exists_linearized (wellformed_of_reachable hs) hrun
  intro t
  rw [hlast.alike.sessions, hlast.alike.countP_isNotice]
  exact notices_closeEach (wellformed_of_reachable hs) order a

end Runs

/-- Two pages of the account `"1"` have logged in. -/
def twoPages : Server Client :=
  (server Client).exec .empty
    [(Client.page 0).linkKeep (lit "1"), (Client.page 1).linkKeep (lit "1")]

theorem twoPages_reachable : (server Client).Reachable .empty twoPages :=
  ⟨[(Client.page 0).linkKeep (lit "1"), (Client.page 1).linkKeep (lit "1")],
    ⟨rfl, rfl, trivial⟩, rfl⟩

/-- The channels of the pages. -/
def pageCtx (second : Bool) : ChannelHandlerContext Client := (Client.page second.toNat).ctx

/-- Both calls find the session. The second one has it removed, and the first one removes nothing
any more. -/
def bothFound : List (Bool × Clock) :=
  [false, true, true, false, false, true].map (·, ⟨0, []⟩)

theorem bothFound_run : (closings pageCtx).Run twoPages.closers bothFound :=
  ⟨nofun, nofun, nofun, nofun, nofun, nofun, trivial⟩

theorem closings_linearizable_bothFound : ∃ order, order.Sublist bothFound ∧
    (order.map Prod.fst).Nodup ∧
    (∀ i, i ∈ order.map Prod.fst ↔
      (((closings pageCtx).exec twoPages.closers bothFound).pc i).Past) ∧
    ((closings pageCtx).exec twoPages.closers bothFound).server.Alike (Caller pageCtx)
      (((closings pageCtx).exec twoPages.closers bothFound).Leaving pageCtx)
      (closeEach pageCtx order twoPages) :=
  closings_linearizable twoPages_reachable bothFound_run

theorem sessions_of_closings_bothFound :
    ((closings pageCtx).exec twoPages.closers bothFound).server.sessions (lit "1") = none :=
  (sessions_of_closings twoPages_reachable bothFound_run (lit "1")).trans rfl

theorem notices_of_closings_bothFound :
    ((closings pageCtx).exec twoPages.closers bothFound).server.out.countP
      (·.isNotice (lit "1")) = twoPages.out.countP (·.isNotice (lit "1")) + 1 :=
  (notices_of_closings twoPages_reachable bothFound_run (lit "1")).1 ⟨nofun, rfl⟩

end NettyTcpWeb
