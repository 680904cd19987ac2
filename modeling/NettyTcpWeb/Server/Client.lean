import NettyTcpWeb.Server.Connertor

/-!
# Numbered clients

A concrete type of channels: watches connect to the TCP server and web pages to the WebSocket
server, and each has a short id of its own.

## Main definitions

* `Client`: the channels of watches and of web pages
* `Client.linkKeep`, `Client.gone`: events of a client

## Main results

* `Client.asShortText_injective`: distinct clients have distinct short ids
-/

namespace NettyTcpWeb

open Java (Text ch lit)

/-- A watch, or a web page. -/
inductive Client where
  | watch (n : Nat)
  | page (n : Nat)
deriving DecidableEq, Repr

namespace Client

instance : Channel Client where
  asShortText
    | .watch n => ch 'w' :: List.replicate n (ch '0')
    | .page n => ch 'p' :: List.replicate n (ch '0')
  server
    | .watch _ => .socket
    | .page _ => .websocket

theorem asShortText_injective : Function.Injective (Channel.asShortText : Client → Text) := by
  intro c d h
  have hlength := congrArg List.length h
  cases c with
  | watch n =>
    cases d with
    | watch k => simpa [Channel.asShortText] using hlength
    | page k => exact absurd (List.cons.inj h).1 (by decide)
  | page n =>
    cases d with
    | watch k => exact absurd (List.cons.inj h).1 (by decide)
    | page k => simpa [Channel.asShortText] using hlength

variable (c : Client)

/-- The context of a client with a known address. -/
def ctx : ChannelHandlerContext Client := ⟨c, some ⟨lit "10.0.0.1", 80⟩⟩

/-- A link-keep message for the account `d`. -/
def linkKeep (d : Text) : Event Client :=
  .message c.ctx ⟨0, []⟩ { deviceId := d, type := lit "LK" }

/-- The closed channel of a client is reported to its handler. -/
def gone : Event Client := .channelInactive c.ctx ⟨0, []⟩

end Client

end NettyTcpWeb
