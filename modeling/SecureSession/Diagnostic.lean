import SecureSession.Simulation.World

/-! # Diagnostic texts

How values show in diagnostics. Secrets never do: a public key shows its first four bytes, and of a
secret only its presence shows. -/

namespace SecureSession

/-! ### Keys -/

/-- The first four bytes of a public key. -/
def PublicKey.diagnostic (k : PublicKey) : String := s!"PublicKey({Bytes.hex (k.bytes.take 4)}..)"

/-- Nothing of a secret. -/
def SecretKey.diagnostic (_ : SecretKey) : String := "SecretKey(<redacted>)"

/-- The public half of a pair. -/
def KeyPair.diagnostic (k : KeyPair) : String :=
  s!"KeyPair \x7b public: {k.publicKey.diagnostic}, .. \x7d"

/-! ### Chains and ratchets -/

/-- The position of a chain key. -/
def ChainKey.diagnostic (c : ChainKey) : String := s!"ChainKey \x7b index: {c.index}, .. \x7d"

/-- The position of a message key. -/
def MessageKey.diagnostic (k : MessageKey) : String := s!"MessageKey \x7b index: {k.index}, .. \x7d"

/-- A chain, or that there is none. -/
def ChainKey.optionDiagnostic : Option ChainKey → String
  | none => "None"
  | some c => s!"Some({c.diagnostic})"

/-- The public keys and the positions of a ratchet. -/
def RatchetState.diagnostic (r : RatchetState) : String :=
  s!"RatchetState \x7b local_ratchet_key: {r.localKey.diagnostic}, " ++
  s!"remote_ratchet_key: {r.remoteKey.diagnostic}, " ++
  s!"sender_chain: {ChainKey.optionDiagnostic r.sendingChain}, " ++
  s!"receiver_chain: {ChainKey.optionDiagnostic r.receivingChain}, .. \x7d"

/-! ### Sessions, messages and exchanges -/

/-- A session in short: its version, the start of its root key, and whether it can send. -/
def SessionState.summary (s : SessionState) : String :=
  s!"{s.version}:{Bytes.hex (s.ratchet.rootKey.bytes.take 4)}:" ++ (if s.canSend then "s" else "-")

/-- A message with the length of its content in place of the content. -/
def RatchetMessage.diagnostic (m : RatchetMessage) : String :=
  s!"RatchetMessage \x7b sender_ephemeral: {m.senderEphemeral.diagnostic}, " ++
  s!"counter: {m.counter}, previous_counter: {m.previousCounter}, " ++
  s!"ciphertext: \"<{m.ciphertext.length} bytes>\" \x7d"

/-- The number and the public keys of an exchange. -/
def PendingExchange.diagnostic (q : PendingExchange) : String :=
  s!"PendingKeyExchange \x7b sequence: {q.sequence}, base: {q.base.publicKey.diagnostic}, " ++
  s!"ephemeral: {q.ephemeral.publicKey.diagnostic}, .. \x7d"

/-! ### Errors

The kind of an error, apart from its report: diagnostics count errors by kind. -/

/-- The kind of an error in a message. -/
def ProtocolError.kind : ProtocolError → String
  | invalidVersion .. => "Protocol.InvalidVersion"
  | invalidMessage _ => "Protocol.InvalidMessage"

/-- The kind of an error of the cryptography. -/
def CryptoError.kind : CryptoError → String
  | nonContributory => "Crypto.NonContributory"
  | keyDerivation _ => "Crypto.KeyDerivation"

/-- The kind of an error of the storage. -/
def StorageError.kind : StorageError → String
  | unavailable _ => "Storage.Unavailable"
  | corrupted _ => "Storage.Corrupted"
  | missingPreKey _ => "Storage.MissingPreKey"

/-- The kind of an error of a session operation. -/
def SessionError.kind : SessionError → String
  | protocol e => e.kind
  | invalidKeyId _ => "InvalidKeyId"
  | noSession .. => "NoSession"
  | trustRejected _ => "TrustRejected"
  | crypto e => e.kind
  | storage e => e.kind

/-- The kind of an error of a simulated world. -/
def WorldError.kind : WorldError → String
  | unknownDevice _ => "UnknownDevice"
  | session _ e => "Session." ++ e.kind
  | invariant .. => "Invariant"

/-! ### Environments and devices -/

/-- The time of an environment. -/
def Environment.diagnostic (e : Environment) : String := s!"SimEnv \x7b now_ms: {e.now}, .. \x7d"

/-- The lowercase hexadecimal text of a number below 256, without leading zeros. -/
def shortHex (n : Nat) : String :=
  String.ofList ([Bytes.hexDigit (n / 16), Bytes.hexDigit (n % 16)].drop (if n < 16 then 1 else 0))

/-- How a character shows between quotes: quotes, backslashes and control characters are escaped. -/
def escaped (c : Char) : String :=
  if c = '"' then "\\\""
  else if c = '\\' then "\\\\"
  else if c = '\n' then "\\n"
  else if c = '\r' then "\\r"
  else if c = '\t' then "\\t"
  else if c.toNat = 0 then "\\0"
  else if c.toNat < 0x20 ∨ (0x7f ≤ c.toNat ∧ c.toNat < 0xa0) then
    "\\u\x7b" ++ shortHex c.toNat ++ "\x7d"
  else c.toString

/-- A text in quotes. -/
def quoted (s : String) : String := "\"" ++ String.join (s.toList.map escaped) ++ "\""

/-- The address of a device and the number of its next prekey. -/
def Device.diagnostic (d : Device) : String :=
  s!"SimDevice \x7b address: PeerAddress \x7b name: {quoted d.address.name}, " ++
  s!"device_id: {d.address.device} \x7d, next_prekey_id: {d.nextPreKey}, .. \x7d"

end SecureSession
