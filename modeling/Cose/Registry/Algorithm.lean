/-!
# Registered algorithms

The algorithms that messages name, and what a caller has to know of each to drive the cryptography:
hashes, lengths of hashes, tags and keys.
-/

set_option autoImplicit false
set_option relaxedAutoImplicit false

namespace Cose

/-- The registered algorithms. -/
inductive Algorithm where
  | rs512
  | rs384
  | rs256
  | es256k
  | sha512
  | sha384
  | ps512
  | ps384
  | ps256
  | es512
  | es384
  | ecdhSsA256kw
  | ecdhSsA192kw
  | ecdhSsA128kw
  | ecdhEsA256kw
  | ecdhEsA192kw
  | ecdhEsA128kw
  | ecdhSsHkdf512
  | ecdhSsHkdf256
  | ecdhEsHkdf512
  | ecdhEsHkdf256
  | sha512Truncated256
  | sha256
  | directHkdfSha512
  | directHkdfSha256
  /-- Signs the whole message, not a hash of it. -/
  | edDsa
  | es256
  /-- Direct use of the content key. -/
  | direct
  | a256kw
  | a192kw
  | a128kw
  | reserved
  | a128gcm
  | a192gcm
  | a256gcm
  /-- Authentication with a tag truncated to 64 bits. -/
  | hmac256Truncated64
  | hmac256
  | hmac384
  | hmac512
  /-- Nonce length, tag length and key length follow the name. -/
  | aesCcm16_64_128
  | aesCcm16_64_256
  | aesCcm64_64_128
  | aesCcm64_64_256
  | chaCha20Poly1305
  | aesCcm16_128_128
  | aesCcm16_128_256
  | aesCcm64_128_128
  | aesCcm64_128_256
deriving DecidableEq, Repr

namespace Algorithm

/-- Every registered value, in the order of its code. -/
def all : List Algorithm :=
  [rs512, rs384, rs256, es256k, sha512, sha384, ps512, ps384, ps256, es512, es384,
   ecdhSsA256kw, ecdhSsA192kw, ecdhSsA128kw, ecdhEsA256kw, ecdhEsA192kw, ecdhEsA128kw,
   ecdhSsHkdf512, ecdhSsHkdf256, ecdhEsHkdf512, ecdhEsHkdf256, sha512Truncated256, sha256,
   directHkdfSha512, directHkdfSha256, edDsa, es256, direct, a256kw, a192kw, a128kw, reserved,
   a128gcm, a192gcm, a256gcm, hmac256Truncated64, hmac256, hmac384, hmac512, aesCcm16_64_128,
   aesCcm16_64_256, aesCcm64_64_128, aesCcm64_64_256, chaCha20Poly1305, aesCcm16_128_128,
   aesCcm16_128_256, aesCcm64_128_128, aesCcm64_128_256]

/-- The registered code of a value. -/
def code : Algorithm → Int64
  | rs512 => -259
  | rs384 => -258
  | rs256 => -257
  | es256k => -47
  | sha512 => -44
  | sha384 => -43
  | ps512 => -39
  | ps384 => -38
  | ps256 => -37
  | es512 => -36
  | es384 => -35
  | ecdhSsA256kw => -34
  | ecdhSsA192kw => -33
  | ecdhSsA128kw => -32
  | ecdhEsA256kw => -31
  | ecdhEsA192kw => -30
  | ecdhEsA128kw => -29
  | ecdhSsHkdf512 => -28
  | ecdhSsHkdf256 => -27
  | ecdhEsHkdf512 => -26
  | ecdhEsHkdf256 => -25
  | sha512Truncated256 => -17
  | sha256 => -16
  | directHkdfSha512 => -11
  | directHkdfSha256 => -10
  | edDsa => -8
  | es256 => -7
  | direct => -6
  | a256kw => -5
  | a192kw => -4
  | a128kw => -3
  | reserved => 0
  | a128gcm => 1
  | a192gcm => 2
  | a256gcm => 3
  | hmac256Truncated64 => 4
  | hmac256 => 5
  | hmac384 => 6
  | hmac512 => 7
  | aesCcm16_64_128 => 10
  | aesCcm16_64_256 => 11
  | aesCcm64_64_128 => 12
  | aesCcm64_64_256 => 13
  | chaCha20Poly1305 => 24
  | aesCcm16_128_128 => 30
  | aesCcm16_128_256 => 31
  | aesCcm64_128_128 => 32
  | aesCcm64_128_256 => 33

/-- The identifier of a registered value. -/
def name : Algorithm → String
  | rs512 => "RS512"
  | rs384 => "RS384"
  | rs256 => "RS256"
  | es256k => "ES256K"
  | sha512 => "SHA_512"
  | sha384 => "SHA_384"
  | ps512 => "PS512"
  | ps384 => "PS384"
  | ps256 => "PS256"
  | es512 => "ES512"
  | es384 => "ES384"
  | ecdhSsA256kw => "ECDH_SS_A256KW"
  | ecdhSsA192kw => "ECDH_SS_A192KW"
  | ecdhSsA128kw => "ECDH_SS_A128KW"
  | ecdhEsA256kw => "ECDH_ES_A256KW"
  | ecdhEsA192kw => "ECDH_ES_A192KW"
  | ecdhEsA128kw => "ECDH_ES_A128KW"
  | ecdhSsHkdf512 => "ECDH_SS_HKDF_512"
  | ecdhSsHkdf256 => "ECDH_SS_HKDF_256"
  | ecdhEsHkdf512 => "ECDH_ES_HKDF_512"
  | ecdhEsHkdf256 => "ECDH_ES_HKDF_256"
  | sha512Truncated256 => "SHA_512_256"
  | sha256 => "SHA_256"
  | directHkdfSha512 => "Direct_HKDF_SHA_512"
  | directHkdfSha256 => "Direct_HKDF_SHA_256"
  | edDsa => "EdDSA"
  | es256 => "ES256"
  | direct => "Direct"
  | a256kw => "A256KW"
  | a192kw => "A192KW"
  | a128kw => "A128KW"
  | reserved => "Reserved"
  | a128gcm => "A128GCM"
  | a192gcm => "A192GCM"
  | a256gcm => "A256GCM"
  | hmac256Truncated64 => "HMAC_256_64"
  | hmac256 => "HMAC_256_256"
  | hmac384 => "HMAC_384_384"
  | hmac512 => "HMAC_512_512"
  | aesCcm16_64_128 => "AES_CCM_16_64_128"
  | aesCcm16_64_256 => "AES_CCM_16_64_256"
  | aesCcm64_64_128 => "AES_CCM_64_64_128"
  | aesCcm64_64_256 => "AES_CCM_64_64_256"
  | chaCha20Poly1305 => "ChaCha20Poly1305"
  | aesCcm16_128_128 => "AES_CCM_16_128_128"
  | aesCcm16_128_256 => "AES_CCM_16_128_256"
  | aesCcm64_128_128 => "AES_CCM_64_128_128"
  | aesCcm64_128_256 => "AES_CCM_64_128_256"

/-- The value registered under a code. -/
def ofCode? (code : Int64) : Option Algorithm := all.find? fun value ↦ value.code == code

/-- No two values are registered under one code. -/
@[simp]
theorem ofCode?_code (value : Algorithm) : ofCode? value.code = some value := by
  cases value <;> decide

/-- Whether a code is in the range for private use. -/
def isPrivate (code : Int64) : Bool := code < -65536

/-- The hash that a signature algorithm signs. -/
def signatureHash? : Algorithm → Option Algorithm
  | es256 | es256k | ps256 | rs256 => some sha256
  | es384 | ps384 | rs384 => some sha384
  | es512 | ps512 | rs512 => some sha512
  | _ => none

/-- Whether a signature algorithm takes the whole message rather than a hash of it. -/
def signsWholeMessage (algorithm : Algorithm) : Bool := algorithm == edDsa

/-- The length of a hash, in bytes. -/
def hashLength? : Algorithm → Option Nat
  | sha256 | sha512Truncated256 => some 32
  | sha384 => some 48
  | sha512 => some 64
  | _ => none

/-- The hash under an authentication algorithm. -/
def macHash? : Algorithm → Option Algorithm
  | hmac256Truncated64 | hmac256 => some sha256
  | hmac384 => some sha384
  | hmac512 => some sha512
  | _ => none

/-- The length of the tag of an authentication algorithm after truncation, in bytes. -/
def macTagLength? : Algorithm → Option Nat
  | hmac256Truncated64 => some 8
  | hmac256 => some 32
  | hmac384 => some 48
  | hmac512 => some 64
  | _ => none

/-- The length of the tag that an authenticated encryption appends, in bytes. -/
def aeadTagLength? : Algorithm → Option Nat
  | a128gcm | a192gcm | a256gcm | chaCha20Poly1305 => some 16
  | aesCcm16_64_128 | aesCcm16_64_256 | aesCcm64_64_128 | aesCcm64_64_256 => some 8
  | aesCcm16_128_128 | aesCcm16_128_256 | aesCcm64_128_128 | aesCcm64_128_256 => some 16
  | _ => none

/-- The length of the key of a symmetric algorithm, in bits. -/
def keyBits? : Algorithm → Option UInt64
  | a128gcm | aesCcm16_64_128 | aesCcm64_64_128 | aesCcm16_128_128 | aesCcm64_128_128
  | a128kw | ecdhEsA128kw | ecdhSsA128kw => some 128
  | a192gcm | a192kw | ecdhEsA192kw | ecdhSsA192kw => some 192
  | a256gcm | aesCcm16_64_256 | aesCcm64_64_256 | aesCcm16_128_256 | aesCcm64_128_256
  | chaCha20Poly1305 | a256kw | ecdhEsA256kw | ecdhSsA256kw | hmac256Truncated64
  | hmac256 => some 256
  | hmac384 => some 384
  | hmac512 => some 512
  | _ => none

end Algorithm

end Cose
