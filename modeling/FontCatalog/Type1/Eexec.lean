import FontCatalog.Bytes

/-!
# Encryption of the private portion

The private portion of a Type 1 font is a stream cipher over bytes with a 16-bit key that moves on
with every byte of ciphertext. The first four bytes of the plaintext are random and are dropped.
-/

namespace FontCatalog.Type1.Eexec

/-- The key before the first byte. -/
def initialKey : UInt16 := 55665

/-- The number of random bytes in front. -/
def leadLength : Nat := 4

/-- The key after a byte of ciphertext. -/
def nextKey (key : UInt16) (cipher : UInt8) : UInt16 :=
  (cipher.toUInt16 + key) * 52845 + 22719

/-- The byte that the key contributes. -/
def keyByte (key : UInt16) : UInt8 :=
  (key >>> 8).toUInt8

/-- Decryption of every byte under a key. -/
def decryptFrom (key : UInt16) : Bytes → Bytes
  | [] => []
  | cipher :: rest => (cipher ^^^ keyByte key) :: decryptFrom (nextKey key cipher) rest

/-- Encryption of every byte under a key. -/
def encryptFrom (key : UInt16) : Bytes → Bytes
  | [] => []
  | plain :: rest =>
      let cipher := plain ^^^ keyByte key
      cipher :: encryptFrom (nextKey key cipher) rest

/-- The plaintext without the random bytes in front. -/
def decrypt (cipher : Bytes) : Bytes :=
  (decryptFrom initialKey cipher).drop leadLength

/-- The ciphertext of a plaintext with the given bytes in front. -/
def encrypt (lead plain : Bytes) : Bytes :=
  encryptFrom initialKey (lead ++ plain)

end FontCatalog.Type1.Eexec
