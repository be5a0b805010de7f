import SecureSession.Handshake.Exchange
import SecureSession.Handshake.Offline

/-! # Receiving handshake messages

What any inbound message of a handshake leads to. -/

namespace SecureSession.Party

variable (suite : Suite) (p : Party)

/-- Plans what a message leads to. -/
def planReceive (a : Address) (thread : UInt64) (message : HandshakeMessage) (v : Vault) :
    Draw (Plan Step) := do
  match message with
  | .bundle m => Draw.lift (p.planFromMessage suite a thread m (← get).now v)
  | .initiate m | .response m => p.planExchange suite a thread m v
  | .legacy .. => return Step.dropped .legacy

/-- Takes in a message from an address. -/
def receive (s : Storage) (a : Address) (thread : UInt64) (message : HandshakeMessage) :
    Except SessionError HandshakeOutcome × Party × Storage :=
  p.perform s (p.planReceive suite a thread message)

/-- Takes in a payload from an address. One that cannot be decoded changes nothing. -/
def receivePayload (s : Storage) (a : Address) (thread : UInt64) (kind : HandshakeKind)
    (payload : Bytes) : Except SessionError HandshakeOutcome × Party × Storage :=
  match HandshakeMessage.decode kind payload with
  | .ok message => p.receive suite s a thread message
  | .error e => (.error (.protocol e), p, s)

end SecureSession.Party
