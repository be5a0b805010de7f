import SecureSession.Message.HandshakeMessage
import SecureSession.SortedMap

/-! # The simulated network

Messages between devices wait on links, one queue per direction, first in, first out. A link without
messages is not kept. -/

namespace SecureSession

/-- A message on its way. -/
structure Envelope where
  link : Link
  thread : UInt64
  kind : HandshakeKind
  payload : Bytes
deriving DecidableEq

/-- The queues of all links with messages. -/
structure Network where
  links : SortedMap Link (List Envelope)
deriving DecidableEq

namespace Network

/-- No messages. -/
def empty : Network := ⟨.empty⟩

instance : Inhabited Network := ⟨empty⟩

/-- The messages on a link, oldest first. -/
def queue (n : Network) (l : Link) : List Envelope := (n.links.get? l).getD []

/-- How many messages are on a link. -/
def queued (n : Network) (l : Link) : Nat := (n.queue l).length

/-- The links with messages, in order. -/
def busyLinks (n : Network) : List Link := n.links.keys

/-- How many messages there are. -/
def inFlight (n : Network) : Nat := n.links.values.flatten.length

/-- Drops all messages. -/
def clear (_ : Network) : Network := empty

/-- Puts a message at the end of its link. -/
def send (n : Network) (e : Envelope) : Network :=
  { n with links := n.links.insert e.link (n.queue e.link ++ [e]) }

/-- Puts some messages on their links, in order. -/
def sendAll (n : Network) (l : List Envelope) : Network := l.foldl send n

/-- Takes the oldest message off a link. -/
def deliver (n : Network) (l : Link) : Option Envelope × Network :=
  match n.queue l with
  | [] => (none, n)
  | [e] => (some e, { n with links := n.links.erase l })
  | e :: rest => (some e, { n with links := n.links.insert l rest })

end Network

end SecureSession
