import RestFleet.Model.Text

/-! # Sealed secrets

`security/envelope.go`, over any authenticated cipher. -/

namespace RestFleet

/-- `cipher.AEAD`: what was encrypted opens under the same key, nonce and associated data. -/
structure Cipher where
  encrypt : (key nonce plaintext aad : Bytes) → Bytes
  decrypt : (key nonce ciphertext aad : Bytes) → Option Bytes
  decrypt_encrypt : ∀ key nonce plaintext aad,
    decrypt key nonce (encrypt key nonce plaintext aad) aad = some plaintext

structure SealRandom where
  dataKey : Bytes
  nonce : Bytes
  wrapNonce : Bytes
  dataKey_length : dataKey.length = 32
  nonce_length : nonce.length = 12
  wrapNonce_length : wrapNonce.length = 12

structure Envelope where
  ciphertext : Bytes
  nonce : Bytes
  wrappedDataKey : Bytes
  wrapNonce : Bytes
  aad : Bytes
  deriving DecidableEq

def Text.bytes (s : Text) : Bytes := (String.ofList s).toByteArray.data.toList

/-- `newGCM` fails for other key lengths. -/
def gcmKey (key : Bytes) : Bool := key.length = 16 || key.length = 24 || key.length = 32

def wrapAAD (aad : Bytes) : Bytes := Text.bytes "wrap:".toList ++ aad

def sealEnvelope (cipher : Cipher) (masterKey plaintext aad : Bytes) (random : SealRandom) :
    Option Envelope :=
  if masterKey.length ≠ 32 then none
  else some {
    ciphertext := cipher.encrypt random.dataKey random.nonce plaintext aad
    nonce := random.nonce
    wrappedDataKey := cipher.encrypt masterKey random.wrapNonce random.dataKey (wrapAAD aad)
    wrapNonce := random.wrapNonce
    aad := aad }

def openEnvelope (cipher : Cipher) (masterKey : Bytes) (envelope : Envelope) : Option Bytes :=
  if masterKey.length ≠ 32 then none
  else match cipher.decrypt masterKey envelope.wrapNonce envelope.wrappedDataKey
      (wrapAAD envelope.aad) with
  | none => none
  | some dataKey =>
    if !gcmKey dataKey then none
    else cipher.decrypt dataKey envelope.nonce envelope.ciphertext envelope.aad

end RestFleet
