/-! # Identity notices

System messages about a peer's identity. The wording tells apart what the user did on this device
from what came from elsewhere, and conversations with the peer from groups the peer is in. -/

namespace SecureSession

/-- The conversation a notice is for. -/
inductive NoticeScope
  | direct
  | group (id : String)
deriving DecidableEq

/-- Where a change was made. -/
inductive NoticeOrigin
  /-- On this device. -/
  | here
  /-- On another device of the user's, or seen in a handshake. -/
  | elsewhere
deriving DecidableEq

/-- What happened to an identity. -/
inductive IdentityChange
  | markedVerified
  | markedUnverified
  | keyChanged
deriving DecidableEq

/-- A system message about a peer's identity. -/
structure IdentityNotice where
  peer : String
  scope : NoticeScope
  origin : NoticeOrigin
  change : IdentityChange
deriving DecidableEq

namespace IdentityNotice

/-- What a change from elsewhere adds to the text. -/
def originSuffix : NoticeOrigin → String
  | .here => ""
  | .elsewhere => " from another device"

/-- The text of the message. -/
def describe (n : IdentityNotice) : String :=
  let suffix := originSuffix n.origin
  match n.scope, n.change with
  | .direct, .keyChanged => s!"Your safety number with {n.peer} has changed"
  | .group _, .keyChanged => s!"The safety number of group member {n.peer} has changed"
  | .direct, .markedVerified => s!"You marked your safety number with {n.peer} verified{suffix}"
  | .direct, .markedUnverified => s!"You marked your safety number with {n.peer} unverified{suffix}"
  | .group _, .markedVerified => s!"You marked group member {n.peer} verified{suffix}"
  | .group _, .markedUnverified => s!"You marked group member {n.peer} unverified{suffix}"

/-- The notices of one change: to the conversation with the peer, then to each group. -/
def announce (peer : String) (groups : List String) (origin : NoticeOrigin)
    (change : IdentityChange) : List IdentityNotice :=
  (NoticeScope.direct :: groups.map NoticeScope.group).map fun scope =>
    { peer, scope, origin, change }

end IdentityNotice

/-- The warning that some peers are no longer verified: two are named, the others counted. -/
def describeUnverified? : List String → Option String
  | [] => none
  | [a] => some s!"{a} is no longer verified"
  | [a, b] => some s!"{a} and {b} are no longer verified"
  | [a, b, _] => some s!"{a}, {b}, and 1 other are no longer verified"
  | a :: b :: rest => some s!"{a}, {b}, and {rest.length} others are no longer verified"

end SecureSession
