/-
SRP-6a as the crypto core computes it: `srp6a/bigint.rs`, `params.rs`, `client.rs` and
`server.rs`.

The hash functions, PBKDF2 and NFKC are parameters, and so are the bytes that the random
generator fills a buffer with. A call that panics ends in `panicked`.
-/
import Bittery.Lib.Hex
import Bittery.Lib.Modular

namespace Bittery.Srp6a

open Lib

inductive CryptoError
  | hexDecode
  | invalidPublicEphemeral
  | invalidSessionProof
  | invalidInput (message : String)
deriving DecidableEq, Repr

/-- How a call of the crypto core ends that answers no value. -/
inductive SrpFailure
  | error (e : CryptoError)
  | panicked (message : String)
deriving DecidableEq, Repr

/-! ## Parameters -/

inductive HashAlgorithm
  | sha1
  | sha256
  | sha384
  | sha512
deriving DecidableEq, Repr

/-- In bytes. -/
def HashAlgorithm.outputSize : HashAlgorithm → Nat
  | .sha1 => 20
  | .sha256 => 32
  | .sha384 => 48
  | .sha512 => 64

def HashAlgorithm.pbkdf2Iterations : HashAlgorithm → Nat
  | .sha1 => 720000
  | .sha256 => 310000
  | .sha384 => 215000
  | .sha512 => 120000

/-- The functions of other crates that the exchange is computed with. -/
structure Primitives where
  hash (h : HashAlgorithm) (data : List UInt8) : Vector UInt8 h.outputSize
  pbkdf2Hmac (h : HashAlgorithm) (password salt : List UInt8) (iterations : Nat) : Vector UInt8 h.outputSize
  nfkc : String → String

inductive PrimeGroup
  | G1024
  | G1536
  | G2048
  | G3072
  | G4096
  | G6144
  | G8192
deriving DecidableEq, Repr

def PrimeGroup.bitSize : PrimeGroup → Nat
  | .G1024 => 1024
  | .G1536 => 1536
  | .G2048 => 2048
  | .G3072 => 3072
  | .G4096 => 4096
  | .G6144 => 6144
  | .G8192 => 8192

def PrimeGroup.byteSize (group : PrimeGroup) : Nat := group.bitSize / 8

def PrimeGroup.hexLength (group : PrimeGroup) : Nat := group.byteSize * 2

structure SrpParams where
  n : Nat
  g : Nat
  hexLength : Nat

/-! The digits of the moduli, eight to a word as the table groups them. -/

def PRIME_1024 : List Nat :=
  [0xEEAF0AB9, 0xADB38DD6, 0x9C33F80A, 0xFA8FC5E8, 0x60726187, 0x75FF3C0B, 0x9EA2314C,
   0x9C256576, 0xD674DF74, 0x96EA81D3, 0x383B4813, 0xD692C6E0, 0xE0D5D8E2, 0x50B98BE4,
   0x8E495C1D, 0x6089DAD1, 0x5DC7D7B4, 0x6154D6B6, 0xCE8EF4AD, 0x69B15D49, 0x82559B29,
   0x7BCF1885, 0xC529F566, 0x660E57EC, 0x68EDBC3C, 0x05726CC0, 0x2FD4CBF4, 0x976EAA9A,
   0xFD5138FE, 0x8376435B, 0x9FC61D2F, 0xC0EB06E3]

def PRIME_1536 : List Nat :=
  [0x9DEF3CAF, 0xB939277A, 0xB1F12A86, 0x17A47BBB, 0xDBA51DF4, 0x99AC4C80, 0xBEEEA961,
   0x4B19CC4D, 0x5F4F5F55, 0x6E27CBDE, 0x51C6A94B, 0xE4607A29, 0x1558903B, 0xA0D0F843,
   0x80B655BB, 0x9A22E8DC, 0xDF028A7C, 0xEC67F0D0, 0x8134B1C8, 0xB9798914, 0x9B609E0B,
   0xE3BAB63D, 0x47548381, 0xDBC5B1FC, 0x764E3F4B, 0x53DD9DA1, 0x158BFD3E, 0x2B9C8CF5,
   0x6EDF0195, 0x39349627, 0xDB2FD53D, 0x24B7C486, 0x65772E43, 0x7D6C7F8C, 0xE442734A,
   0xF7CCB7AE, 0x837C264A, 0xE3A9BEB8, 0x7F8A2FE9, 0xB8B5292E, 0x5A021FFF, 0x5E91479E,
   0x8CE7A28C, 0x2442C6F3, 0x15180F93, 0x499A234D, 0xCF76E3FE, 0xD135F9BB]

def PRIME_2048 : List Nat :=
  [0xAC6BDB41, 0x324A9A9B, 0xF166DE5E, 0x1389582F, 0xAF72B665, 0x1987EE07, 0xFC319294,
   0x3DB56050, 0xA37329CB, 0xB4A099ED, 0x8193E075, 0x7767A13D, 0xD52312AB, 0x4B03310D,
   0xCD7F48A9, 0xDA04FD50, 0xE8083969, 0xEDB767B0, 0xCF609517, 0x9A163AB3, 0x661A05FB,
   0xD5FAAAE8, 0x2918A996, 0x2F0B93B8, 0x55F97993, 0xEC975EEA, 0xA80D740A, 0xDBF4FF74,
   0x7359D041, 0xD5C33EA7, 0x1D281E44, 0x6B14773B, 0xCA97B43A, 0x23FB8016, 0x76BD207A,
   0x436C6481, 0xF1D2B907, 0x8717461A, 0x5B9D32E6, 0x88F87748, 0x544523B5, 0x24B0D57D,
   0x5EA77A27, 0x75D2ECFA, 0x032CFBDB, 0xF52FB378, 0x61602790, 0x04E57AE6, 0xAF874E73,
   0x03CE5329, 0x9CCC041C, 0x7BC308D8, 0x2A5698F3, 0xA8D0C382, 0x71AE35F8, 0xE9DBFBB6,
   0x94B5C803, 0xD89F7AE4, 0x35DE236D, 0x525F5475, 0x9B65E372, 0xFCD68EF2, 0x0FA7111F,
   0x9E4AFF73]

def PRIME_3072 : List Nat :=
  [0xFFFFFFFF, 0xFFFFFFFF, 0xC90FDAA2, 0x2168C234, 0xC4C6628B, 0x80DC1CD1, 0x29024E08,
   0x8A67CC74, 0x020BBEA6, 0x3B139B22, 0x514A0879, 0x8E3404DD, 0xEF9519B3, 0xCD3A431B,
   0x302B0A6D, 0xF25F1437, 0x4FE1356D, 0x6D51C245, 0xE485B576, 0x625E7EC6, 0xF44C42E9,
   0xA637ED6B, 0x0BFF5CB6, 0xF406B7ED, 0xEE386BFB, 0x5A899FA5, 0xAE9F2411, 0x7C4B1FE6,
   0x49286651, 0xECE45B3D, 0xC2007CB8, 0xA163BF05, 0x98DA4836, 0x1C55D39A, 0x69163FA8,
   0xFD24CF5F, 0x83655D23, 0xDCA3AD96, 0x1C62F356, 0x208552BB, 0x9ED52907, 0x7096966D,
   0x670C354E, 0x4ABC9804, 0xF1746C08, 0xCA18217C, 0x32905E46, 0x2E36CE3B, 0xE39E772C,
   0x180E8603, 0x9B2783A2, 0xEC07A28F, 0xB5C55DF0, 0x6F4C52C9, 0xDE2BCBF6, 0x95581718,
   0x3995497C, 0xEA956AE5, 0x15D22618, 0x98FA0510, 0x15728E5A, 0x8AAAC42D, 0xAD33170D,
   0x04507A33, 0xA85521AB, 0xDF1CBA64, 0xECFB8504, 0x58DBEF0A, 0x8AEA7157, 0x5D060C7D,
   0xB3970F85, 0xA6E1E4C7, 0xABF5AE8C, 0xDB0933D7, 0x1E8C94E0, 0x4A25619D, 0xCEE3D226,
   0x1AD2EE6B, 0xF12FFA06, 0xD98A0864, 0xD8760273, 0x3EC86A64, 0x521F2B18, 0x177B200C,
   0xBBE11757, 0x7A615D6C, 0x770988C0, 0xBAD946E2, 0x08E24FA0, 0x74E5AB31, 0x43DB5BFC,
   0xE0FD108E, 0x4B82D120, 0xA93AD2CA, 0xFFFFFFFF, 0xFFFFFFFF]

def PRIME_4096 : List Nat :=
  [0xFFFFFFFF, 0xFFFFFFFF, 0xC90FDAA2, 0x2168C234, 0xC4C6628B, 0x80DC1CD1, 0x29024E08,
   0x8A67CC74, 0x020BBEA6, 0x3B139B22, 0x514A0879, 0x8E3404DD, 0xEF9519B3, 0xCD3A431B,
   0x302B0A6D, 0xF25F1437, 0x4FE1356D, 0x6D51C245, 0xE485B576, 0x625E7EC6, 0xF44C42E9,
   0xA637ED6B, 0x0BFF5CB6, 0xF406B7ED, 0xEE386BFB, 0x5A899FA5, 0xAE9F2411, 0x7C4B1FE6,
   0x49286651, 0xECE45B3D, 0xC2007CB8, 0xA163BF05, 0x98DA4836, 0x1C55D39A, 0x69163FA8,
   0xFD24CF5F, 0x83655D23, 0xDCA3AD96, 0x1C62F356, 0x208552BB, 0x9ED52907, 0x7096966D,
   0x670C354E, 0x4ABC9804, 0xF1746C08, 0xCA18217C, 0x32905E46, 0x2E36CE3B, 0xE39E772C,
   0x180E8603, 0x9B2783A2, 0xEC07A28F, 0xB5C55DF0, 0x6F4C52C9, 0xDE2BCBF6, 0x95581718,
   0x3995497C, 0xEA956AE5, 0x15D22618, 0x98FA0510, 0x15728E5A, 0x8AAAC42D, 0xAD33170D,
   0x04507A33, 0xA85521AB, 0xDF1CBA64, 0xECFB8504, 0x58DBEF0A, 0x8AEA7157, 0x5D060C7D,
   0xB3970F85, 0xA6E1E4C7, 0xABF5AE8C, 0xDB0933D7, 0x1E8C94E0, 0x4A25619D, 0xCEE3D226,
   0x1AD2EE6B, 0xF12FFA06, 0xD98A0864, 0xD8760273, 0x3EC86A64, 0x521F2B18, 0x177B200C,
   0xBBE11757, 0x7A615D6C, 0x770988C0, 0xBAD946E2, 0x08E24FA0, 0x74E5AB31, 0x43DB5BFC,
   0xE0FD108E, 0x4B82D120, 0xA9210801, 0x1A723C12, 0xA787E6D7, 0x88719A10, 0xBDBA5B26,
   0x99C32718, 0x6AF4E23C, 0x1A946834, 0xB6150BDA, 0x2583E9CA, 0x2AD44CE8, 0xDBBBC2DB,
   0x04DE8EF9, 0x2E8EFC14, 0x1FBECAA6, 0x287C5947, 0x4E6BC05D, 0x99B2964F, 0xA090C3A2,
   0x233BA186, 0x515BE7ED, 0x1F612970, 0xCEE2D7AF, 0xB81BDD76, 0x2170481C, 0xD0069127,
   0xD5B05AA9, 0x93B4EA98, 0x8D8FDDC1, 0x86FFB7DC, 0x90A6C08F, 0x4DF435C9, 0x34063199,
   0xFFFFFFFF, 0xFFFFFFFF]

def PRIME_6144 : List Nat :=
  [0xFFFFFFFF, 0xFFFFFFFF, 0xC90FDAA2, 0x2168C234, 0xC4C6628B, 0x80DC1CD1, 0x29024E08,
   0x8A67CC74, 0x020BBEA6, 0x3B139B22, 0x514A0879, 0x8E3404DD, 0xEF9519B3, 0xCD3A431B,
   0x302B0A6D, 0xF25F1437, 0x4FE1356D, 0x6D51C245, 0xE485B576, 0x625E7EC6, 0xF44C42E9,
   0xA637ED6B, 0x0BFF5CB6, 0xF406B7ED, 0xEE386BFB, 0x5A899FA5, 0xAE9F2411, 0x7C4B1FE6,
   0x49286651, 0xECE45B3D, 0xC2007CB8, 0xA163BF05, 0x98DA4836, 0x1C55D39A, 0x69163FA8,
   0xFD24CF5F, 0x83655D23, 0xDCA3AD96, 0x1C62F356, 0x208552BB, 0x9ED52907, 0x7096966D,
   0x670C354E, 0x4ABC9804, 0xF1746C08, 0xCA18217C, 0x32905E46, 0x2E36CE3B, 0xE39E772C,
   0x180E8603, 0x9B2783A2, 0xEC07A28F, 0xB5C55DF0, 0x6F4C52C9, 0xDE2BCBF6, 0x95581718,
   0x3995497C, 0xEA956AE5, 0x15D22618, 0x98FA0510, 0x15728E5A, 0x8AAAC42D, 0xAD33170D,
   0x04507A33, 0xA85521AB, 0xDF1CBA64, 0xECFB8504, 0x58DBEF0A, 0x8AEA7157, 0x5D060C7D,
   0xB3970F85, 0xA6E1E4C7, 0xABF5AE8C, 0xDB0933D7, 0x1E8C94E0, 0x4A25619D, 0xCEE3D226,
   0x1AD2EE6B, 0xF12FFA06, 0xD98A0864, 0xD8760273, 0x3EC86A64, 0x521F2B18, 0x177B200C,
   0xBBE11757, 0x7A615D6C, 0x770988C0, 0xBAD946E2, 0x08E24FA0, 0x74E5AB31, 0x43DB5BFC,
   0xE0FD108E, 0x4B82D120, 0xA9210801, 0x1A723C12, 0xA787E6D7, 0x88719A10, 0xBDBA5B26,
   0x99C32718, 0x6AF4E23C, 0x1A946834, 0xB6150BDA, 0x2583E9CA, 0x2AD44CE8, 0xDBBBC2DB,
   0x04DE8EF9, 0x2E8EFC14, 0x1FBECAA6, 0x287C5947, 0x4E6BC05D, 0x99B2964F, 0xA090C3A2,
   0x233BA186, 0x515BE7ED, 0x1F612970, 0xCEE2D7AF, 0xB81BDD76, 0x2170481C, 0xD0069127,
   0xD5B05AA9, 0x93B4EA98, 0x8D8FDDC1, 0x86FFB7DC, 0x90A6C08F, 0x4DF435C9, 0x34028492,
   0x36C3FAB4, 0xD27C7026, 0xC1D4DCB2, 0x602646DE, 0xC9751E76, 0x3DBA37BD, 0xF8FF9406,
   0xAD9E530E, 0xE5DB382F, 0x413001AE, 0xB06A53ED, 0x9027D831, 0x179727B0, 0x865A8918,
   0xDA3EDBEB, 0xCF9B14ED, 0x44CE6CBA, 0xCED4BB1B, 0xDB7F1447, 0xE6CC254B, 0x33205151,
   0x2BD7AF42, 0x6FB8F401, 0x378CD2BF, 0x5983CA01, 0xC64B92EC, 0xF032EA15, 0xD1721D03,
   0xF482D7CE, 0x6E74FEF6, 0xD55E702F, 0x46980C82, 0xB5A84031, 0x900B1C9E, 0x59E7C97F,
   0xBEC7E8F3, 0x23A97A7E, 0x36CC88BE, 0x0F1D45B7, 0xFF585AC5, 0x4BD407B2, 0x2B4154AA,
   0xCC8F6D7E, 0xBF48E1D8, 0x14CC5ED2, 0x0F8037E0, 0xA79715EE, 0xF29BE328, 0x06A1D58B,
   0xB7C5DA76, 0xF550AA3D, 0x8A1FBFF0, 0xEB19CCB1, 0xA313D55C, 0xDA56C9EC, 0x2EF29632,
   0x387FE8D7, 0x6E3C0468, 0x043E8F66, 0x3F4860EE, 0x12BF2D5B, 0x0B7474D6, 0xE694F91E,
   0x6DCC4024, 0xFFFFFFFF, 0xFFFFFFFF]

def PRIME_8192 : List Nat :=
  [0xFFFFFFFF, 0xFFFFFFFF, 0xC90FDAA2, 0x2168C234, 0xC4C6628B, 0x80DC1CD1, 0x29024E08,
   0x8A67CC74, 0x020BBEA6, 0x3B139B22, 0x514A0879, 0x8E3404DD, 0xEF9519B3, 0xCD3A431B,
   0x302B0A6D, 0xF25F1437, 0x4FE1356D, 0x6D51C245, 0xE485B576, 0x625E7EC6, 0xF44C42E9,
   0xA637ED6B, 0x0BFF5CB6, 0xF406B7ED, 0xEE386BFB, 0x5A899FA5, 0xAE9F2411, 0x7C4B1FE6,
   0x49286651, 0xECE45B3D, 0xC2007CB8, 0xA163BF05, 0x98DA4836, 0x1C55D39A, 0x69163FA8,
   0xFD24CF5F, 0x83655D23, 0xDCA3AD96, 0x1C62F356, 0x208552BB, 0x9ED52907, 0x7096966D,
   0x670C354E, 0x4ABC9804, 0xF1746C08, 0xCA18217C, 0x32905E46, 0x2E36CE3B, 0xE39E772C,
   0x180E8603, 0x9B2783A2, 0xEC07A28F, 0xB5C55DF0, 0x6F4C52C9, 0xDE2BCBF6, 0x95581718,
   0x3995497C, 0xEA956AE5, 0x15D22618, 0x98FA0510, 0x15728E5A, 0x8AAAC42D, 0xAD33170D,
   0x04507A33, 0xA85521AB, 0xDF1CBA64, 0xECFB8504, 0x58DBEF0A, 0x8AEA7157, 0x5D060C7D,
   0xB3970F85, 0xA6E1E4C7, 0xABF5AE8C, 0xDB0933D7, 0x1E8C94E0, 0x4A25619D, 0xCEE3D226,
   0x1AD2EE6B, 0xF12FFA06, 0xD98A0864, 0xD8760273, 0x3EC86A64, 0x521F2B18, 0x177B200C,
   0xBBE11757, 0x7A615D6C, 0x770988C0, 0xBAD946E2, 0x08E24FA0, 0x74E5AB31, 0x43DB5BFC,
   0xE0FD108E, 0x4B82D120, 0xA9210801, 0x1A723C12, 0xA787E6D7, 0x88719A10, 0xBDBA5B26,
   0x99C32718, 0x6AF4E23C, 0x1A946834, 0xB6150BDA, 0x2583E9CA, 0x2AD44CE8, 0xDBBBC2DB,
   0x04DE8EF9, 0x2E8EFC14, 0x1FBECAA6, 0x287C5947, 0x4E6BC05D, 0x99B2964F, 0xA090C3A2,
   0x233BA186, 0x515BE7ED, 0x1F612970, 0xCEE2D7AF, 0xB81BDD76, 0x2170481C, 0xD0069127,
   0xD5B05AA9, 0x93B4EA98, 0x8D8FDDC1, 0x86FFB7DC, 0x90A6C08F, 0x4DF435C9, 0x34028492,
   0x36C3FAB4, 0xD27C7026, 0xC1D4DCB2, 0x602646DE, 0xC9751E76, 0x3DBA37BD, 0xF8FF9406,
   0xAD9E530E, 0xE5DB382F, 0x413001AE, 0xB06A53ED, 0x9027D831, 0x179727B0, 0x865A8918,
   0xDA3EDBEB, 0xCF9B14ED, 0x44CE6CBA, 0xCED4BB1B, 0xDB7F1447, 0xE6CC254B, 0x33205151,
   0x2BD7AF42, 0x6FB8F401, 0x378CD2BF, 0x5983CA01, 0xC64B92EC, 0xF032EA15, 0xD1721D03,
   0xF482D7CE, 0x6E74FEF6, 0xD55E702F, 0x46980C82, 0xB5A84031, 0x900B1C9E, 0x59E7C97F,
   0xBEC7E8F3, 0x23A97A7E, 0x36CC88BE, 0x0F1D45B7, 0xFF585AC5, 0x4BD407B2, 0x2B4154AA,
   0xCC8F6D7E, 0xBF48E1D8, 0x14CC5ED2, 0x0F8037E0, 0xA79715EE, 0xF29BE328, 0x06A1D58B,
   0xB7C5DA76, 0xF550AA3D, 0x8A1FBFF0, 0xEB19CCB1, 0xA313D55C, 0xDA56C9EC, 0x2EF29632,
   0x387FE8D7, 0x6E3C0468, 0x043E8F66, 0x3F4860EE, 0x12BF2D5B, 0x0B7474D6, 0xE694F91E,
   0x6DBE1159, 0x74A3926F, 0x12FEE5E4, 0x38777CB6, 0xA932DF8C, 0xD8BEC4D0, 0x73B931BA,
   0x3BC832B6, 0x8D9DD300, 0x741FA7BF, 0x8AFC47ED, 0x2576F693, 0x6BA42466, 0x3AAB639C,
   0x5AE4F568, 0x3423B474, 0x2BF1C978, 0x238F16CB, 0xE39D652D, 0xE3FDB8BE, 0xFC848AD9,
   0x22222E04, 0xA4037C07, 0x13EB57A8, 0x1A23F0C7, 0x3473FC64, 0x6CEA306B, 0x4BCBC886,
   0x2F8385DD, 0xFA9D4B7F, 0xA2C087E8, 0x79683303, 0xED5BDD3A, 0x062B3CF5, 0xB3A278A6,
   0x6D2A13F8, 0x3F44F82D, 0xDF310EE0, 0x74AB6A36, 0x4597E899, 0xA0255DC1, 0x64F31CC5,
   0x0846851D, 0xF9AB4819, 0x5DED7EA1, 0xB1D510BD, 0x7EE74D73, 0xFAF36BC3, 0x1ECFA268,
   0x359046F4, 0xEB879F92, 0x4009438B, 0x481C6CD7, 0x889A002E, 0xD5EE382B, 0xC9190DA6,
   0xFC026E47, 0x9558E447, 0x5677E9AA, 0x9E3050E2, 0x765694DF, 0xC81F56E8, 0x80B96E71,
   0x60C980DD, 0x98EDD3DF, 0xFFFFFFFF, 0xFFFFFFFF]

/-- The number that words of eight digits spell. -/
def parseHex (words : List Nat) : Nat := words.foldl (fun n word => 16 ^ 8 * n + word) 0

def getParams (group : PrimeGroup) : SrpParams :=
  let (n, g) :=
    match group with
    | .G1024 => (PRIME_1024, 0x02)
    | .G1536 => (PRIME_1536, 0x02)
    | .G2048 => (PRIME_2048, 0x02)
    | .G3072 => (PRIME_3072, 0x05)
    | .G4096 => (PRIME_4096, 0x05)
    | .G6144 => (PRIME_6144, 0x05)
    | .G8192 => (PRIME_8192, 0x13)
  { n := parseHex n, g, hexLength := group.hexLength }

/-! ## Numbers -/

/-- `validate_hex_string` of the server's `domains/auth/mod.rs`, which registration and every
change of the credentials ask of the salt and the verifier. -/
def validateHexString (value : String) : Bool :=
  !value.toList.isEmpty && value.toList.length % 2 = 0 && value.toList.all Hex.isHexDigit

/-- A number with the width that it is written with. -/
structure SrpInt where
  value : Nat
  hexLength : Option Nat
deriving DecidableEq, Repr

/-- The characters of the Unicode property `White_Space`. -/
def isWhitespace (c : Char) : Bool :=
  let n := c.toNat
  (9 ≤ n && n ≤ 13) || n = 0x20 || n = 0x85 || n = 0xA0 || n = 0x1680 || (0x2000 ≤ n && n ≤ 0x200A)
    || n = 0x2028 || n = 0x2029 || n = 0x202F || n = 0x205F || n = 0x3000

namespace SrpInt

def fromHex (hex : String) : Except SrpFailure SrpInt :=
  let cleaned := hex.toList.filter fun c => !isWhitespace c
  if cleaned = [] then .error (.error (.invalidInput "Hex string cannot be empty"))
  else if !cleaned.all Hex.isHexDigit then .error (.error (.invalidInput "Invalid hex string"))
  else .ok { value := Hex.value cleaned, hexLength := some cleaned.length }

/-- The number of a buffer that the random generator has filled. -/
def random {bytes : Nat} (buffer : Vector UInt8 bytes) : SrpInt :=
  { value := Hex.ofBytes buffer.toList, hexLength := some (bytes * 2) }

def toHex (i : SrpInt) : Except SrpFailure String :=
  match i.hexLength with
  | none => .error (.panicked "SrpInt has no specified hex length")
  | some hexLength => .ok (String.ofList (Hex.padded hexLength i.value))

def pad (i : SrpInt) (hexLength : Nat) : Except SrpFailure SrpInt :=
  if i.hexLength.any (hexLength < ·) then .error (.panicked "Cannot pad to shorter length")
  else .ok { i with hexLength := some hexLength }

def isZero (i : SrpInt) : Bool := i.value = 0

def add (i j : SrpInt) : SrpInt := { value := i.value + j.value, hexLength := none }

/-- The moduli of the groups are not zero, which the source asserts here. -/
def subtractMod (i j modulus : SrpInt) : SrpInt :=
  { value := Modular.subMod i.value j.value modulus.value, hexLength := modulus.hexLength }

def multiply (i j : SrpInt) : SrpInt := { value := i.value * j.value, hexLength := none }

def modulo (i modulus : SrpInt) : SrpInt :=
  { value := i.value % modulus.value, hexLength := modulus.hexLength }

def modPow (i exponent modulus : SrpInt) : SrpInt :=
  { value := Modular.powMod i.value exponent.value modulus.value, hexLength := modulus.hexLength }

def xor (i j : SrpInt) : SrpInt := { i with value := i.value ^^^ j.value }

def equals (i j : SrpInt) : Bool := i.value = j.value

end SrpInt

/-! ## The parties -/

/-- What a client and a server are made from. -/
structure SrpParty where
  hashAlgorithm : HashAlgorithm
  primeGroup : PrimeGroup
  n : SrpInt
  g : SrpInt
  hexLength : Nat

def SrpParty.new (hashAlgorithm : HashAlgorithm) (primeGroup : PrimeGroup) : SrpParty :=
  let params := getParams primeGroup
  { hashAlgorithm, primeGroup
    n := { value := params.n, hexLength := some params.hexLength }
    g := { value := params.g, hexLength := some params.hexLength }
    hexLength := params.hexLength }

structure SrpClient extends SrpParty

structure SrpServer extends SrpParty

def SrpClient.new (hashAlgorithm : HashAlgorithm) (primeGroup : PrimeGroup) : SrpClient :=
  ⟨.new hashAlgorithm primeGroup⟩

def SrpServer.new (hashAlgorithm : HashAlgorithm) (primeGroup : PrimeGroup) : SrpServer :=
  ⟨.new hashAlgorithm primeGroup⟩

structure Ephemeral where
  «public» : String
  secret : String
deriving DecidableEq, Repr

structure Session where
  key : String
  proof : String
deriving DecidableEq, Repr

/-- What one side has computed when it comes to the client's proof: the client's public
value, the common secret, its hash, and what the proof is the hash of. -/
structure Transcript where
  A : SrpInt
  S : SrpInt
  K : SrpInt
  proofValues : List SrpInt
deriving DecidableEq, Repr

variable (P : Primitives)

/-! ### What both compute

The client and the server each have these functions, word for word. -/

namespace SrpParty

variable (party : SrpParty)

def hashBytes (data : List UInt8) : List UInt8 := (P.hash party.hashAlgorithm data).toList

def hashString (input : String) : String :=
  String.ofList (Hex.encode (party.hashBytes P input.toUTF8.data.toList))

/-- The bytes that a number is hashed as. -/
def hashedBytes (value : SrpInt) : Except SrpFailure (List UInt8) := do
  match Hex.decode (← value.toHex).toList with
  | none => .error (.panicked "SrpInt::to_hex must produce valid hex")
  | some bytes => pure bytes

/-- The bytes of several numbers, one after the other. -/
def combined : List SrpInt → Except SrpFailure (List UInt8)
  | [] => pure []
  | value :: values => do
    let bytes ← hashedBytes value
    let rest ← combined values
    pure (bytes ++ rest)

def hashValues (values : List SrpInt) : Except SrpFailure SrpInt := do
  let hash := party.hashBytes P (← combined values)
  pure { value := Hex.ofBytes hash, hexLength := some (party.hashAlgorithm.outputSize * 2) }

/-- `k = H(N, PAD(g))` -/
def multiplier : Except SrpFailure SrpInt := do
  let paddedG ← party.g.pad party.hexLength
  party.hashValues P [party.n, paddedG]

/-- `u = H(PAD(A), PAD(B))` -/
def scrambler (A B : SrpInt) : Except SrpFailure SrpInt := do
  let paddedA ← A.pad party.hexLength
  let paddedB ← B.pad party.hexLength
  party.hashValues P [paddedA, paddedB]

/-- What the proof of the client is the hash of: `H(N) xor H(g), H(I), s, A, B, K`. -/
def proofValues (username : String) (s A B K : SrpInt) : Except SrpFailure (List SrpInt) := do
  let hN ← party.hashValues P [party.n]
  let hG ← party.hashValues P [party.g]
  let hI ← SrpInt.fromHex (party.hashString P (P.nfkc username))
  pure [hN.xor hG, hI, s, A, B, K]

end SrpParty

/-! ### The client -/

namespace SrpClient

variable (client : SrpClient)

def generateSalt (buffer : Vector UInt8 client.hashAlgorithm.outputSize) : Except SrpFailure String :=
  (SrpInt.random buffer).toHex

/-- `x = H(s, H(I | ':' | p))` -/
def derivePrivateKey (salt username password : String) : Except SrpFailure String := do
  let identityHash := client.hashString P (P.nfkc username ++ ":" ++ password)
  let s ← SrpInt.fromHex salt
  let identityHashInt ← SrpInt.fromHex identityHash
  let x ← client.hashValues P [s, identityHashInt]
  x.toHex

def deriveSafePrivateKey (salt password : String) (iterations : Option Nat) : Except SrpFailure String :=
  let iterations := iterations.getD client.hashAlgorithm.pbkdf2Iterations
  match Hex.decode salt.toList with
  | none => .error (.error .hexDecode)
  | some saltBytes =>
    let derivedKey := P.pbkdf2Hmac client.hashAlgorithm password.toUTF8.data.toList saltBytes iterations
    .ok (String.ofList (Hex.encode derivedKey.toList))

/-- `v = g^x mod N` -/
def deriveVerifier (privateKey : String) : Except SrpFailure String := do
  let x ← SrpInt.fromHex privateKey
  (client.g.modPow x client.n).toHex

def generateEphemeral (buffer : Vector UInt8 client.hashAlgorithm.outputSize) : Except SrpFailure Ephemeral := do
  let a := SrpInt.random buffer
  let A := client.g.modPow a client.n
  let secret ← (← a.pad (client.hashAlgorithm.outputSize * 2)).toHex
  pure { secret, «public» := ← A.toHex }

/-- `S = (B - k * g^x)^(a + u*x) mod N` -/
def premaster (k u a x B : SrpInt) : SrpInt :=
  let gX := client.g.modPow x client.n
  let kGX := (k.multiply gX).modulo client.n
  let bMinusKGX := B.subtractMod kGX client.n
  bMinusKGX.modPow (a.add (u.multiply x)) client.n

/-- `derive_session` up to the proof. -/
def transcript (clientSecretEphemeral serverPublicEphemeral salt username privateKey : String) :
    Except SrpFailure Transcript := do
  let a ← SrpInt.fromHex clientSecretEphemeral
  let B ← SrpInt.fromHex serverPublicEphemeral
  let s ← SrpInt.fromHex salt
  let x ← SrpInt.fromHex privateKey
  let A := client.g.modPow a client.n
  if (B.modulo client.n).isZero then .error (.error .invalidPublicEphemeral)
  else
    let u ← client.scrambler P A B
    let k ← client.multiplier P
    let S := client.premaster k u a x B
    let K ← client.hashValues P [S]
    pure { A, S, K, proofValues := ← client.proofValues P username s A B K }

def deriveSession (clientSecretEphemeral serverPublicEphemeral salt username privateKey : String) :
    Except SrpFailure Session := do
  let t ← client.transcript P clientSecretEphemeral serverPublicEphemeral salt username privateKey
  let M ← client.hashValues P t.proofValues
  pure { key := ← t.K.toHex, proof := ← M.toHex }

def verifySession (clientPublicEphemeral : String) (clientSession : Session) (serverSessionProof : String) :
    Except SrpFailure Unit := do
  let A ← SrpInt.fromHex clientPublicEphemeral
  let M ← SrpInt.fromHex clientSession.proof
  let K ← SrpInt.fromHex clientSession.key
  let expected ← client.hashValues P [A, M, K]
  let actual ← SrpInt.fromHex serverSessionProof
  if !actual.equals expected then .error (.error .invalidSessionProof) else pure ()

end SrpClient

/-! ### The server -/

namespace SrpServer

variable (server : SrpServer)

/-- `B = kv + g^b mod N` -/
def publicEphemeral (k v b : SrpInt) : SrpInt :=
  let kv := (k.multiply v).modulo server.n
  let gB := server.g.modPow b server.n
  (kv.add gB).modulo server.n

def generateEphemeral (verifier : String) (buffer : Vector UInt8 server.hashAlgorithm.outputSize) :
    Except SrpFailure Ephemeral := do
  let v ← SrpInt.fromHex verifier
  let b := SrpInt.random buffer
  let k ← server.multiplier P
  let B := server.publicEphemeral k v b
  let secret ← (← b.pad (server.hashAlgorithm.outputSize * 2)).toHex
  pure { secret, «public» := ← B.toHex }

/-- `S = (A * v^u)^b mod N` -/
def premaster (u b v A : SrpInt) : SrpInt :=
  let vU := v.modPow u server.n
  let aVU := (A.multiply vU).modulo server.n
  aVU.modPow b server.n

/-- `derive_session` up to the proof. -/
def transcript (serverSecretEphemeral clientPublicEphemeral salt username verifier : String) :
    Except SrpFailure Transcript := do
  let b ← SrpInt.fromHex serverSecretEphemeral
  let A ← SrpInt.fromHex clientPublicEphemeral
  let s ← SrpInt.fromHex salt
  let v ← SrpInt.fromHex verifier
  let k ← server.multiplier P
  let B := server.publicEphemeral k v b
  if (A.modulo server.n).isZero then .error (.error .invalidPublicEphemeral)
  else
    let u ← server.scrambler P A B
    let S := server.premaster u b v A
    let K ← server.hashValues P [S]
    pure { A, S, K, proofValues := ← server.proofValues P username s A B K }

def deriveSession (serverSecretEphemeral clientPublicEphemeral salt username verifier clientSessionProof : String) :
    Except SrpFailure Session := do
  let t ← server.transcript P serverSecretEphemeral clientPublicEphemeral salt username verifier
  let expectedM ← server.hashValues P t.proofValues
  let actualM ← SrpInt.fromHex clientSessionProof
  if !actualM.equals expectedM then .error (.error .invalidSessionProof)
  else
    -- `P = H(A, M, K)`, over the proof that the server expects.
    let proof ← server.hashValues P [t.A, expectedM, t.K]
    pure { key := ← t.K.toHex, proof := ← proof.toHex }

end SrpServer

end Bittery.Srp6a
