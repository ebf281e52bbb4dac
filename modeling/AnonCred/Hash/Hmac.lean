import AnonCred.Hash.Sha2

/-!
# Keyed hashes

HMAC with SHA-256: a hash of the message under the key, hashed again under the key.
-/

namespace AnonCred.Hmac

/-- The key as one block: a key longer than a block is hashed first, and zeros fill the rest. -/
def keyBlock (key : Bytes) : Bytes :=
  let short := if Sha2.sha256.blockBytes < key.length then Sha2.sha256.hash key else key
  short ++ List.replicate (Sha2.sha256.blockBytes - short.length) 0

/-- The keyed hash of a message. -/
def hmacSha256 (key message : Bytes) : Bytes :=
  let block := keyBlock key
  let inner := Sha2.sha256.hash (block.map (· ^^^ 0x36) ++ message)
  Sha2.sha256.hash (block.map (· ^^^ 0x5c) ++ inner)

end AnonCred.Hmac
