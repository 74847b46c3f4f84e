import Vivarium.Identity.Sha1

/-! # Universally unique identifiers

An identifier is 128 bits, ordered as an unsigned number. It is written as five groups of lower-case
hexadecimal digits; it is read from that form in either case, from the digits alone, and from the
form in braces or with the `urn:uuid:` mark.
-/

namespace Vivarium

structure Uuid where
  bits : BitVec 128
  deriving DecidableEq, Repr, Inhabited

namespace Uuid

def ofNat (n : Nat) : Uuid := ⟨BitVec.ofNat 128 n⟩

def toNat (u : Uuid) : Nat := u.bits.toNat

def bytes (u : Uuid) : List UInt8 := Sha1.bigEndian u.toNat 16

def ofBytes (bs : List UInt8) : Uuid := ofNat (bs.foldl (fun n b => 256 * n + b.toNat) 0)

def hexDigits (u : Uuid) : List Char :=
  (List.range 32).reverse.map fun i => Nat.digitChar (u.toNat >>> (4 * i) % 16)

/-- The digits in groups of 8, 4, 4, 4 and 12. -/
def text (u : Uuid) : String :=
  let cut (start count : Nat) := String.ofList ((u.hexDigits.drop start).take count)
  String.intercalate "-" [cut 0 8, cut 8 4, cut 12 4, cut 16 4, cut 20 12]

def hexValue? (c : Char) : Option Nat :=
  if '0' ≤ c ∧ c ≤ '9' then some (c.toNat - 48)
  else if 'a' ≤ c ∧ c ≤ 'f' then some (c.toNat - 87)
  else if 'A' ≤ c ∧ c ≤ 'F' then some (c.toNat - 55)
  else none

def ofHexDigits? (cs : List Char) : Option Uuid :=
  if cs.length = 32 then
    (cs.mapM hexValue?).map fun ds => ofNat (ds.foldl (fun n d => 16 * n + d) 0)
  else none

/-- Drops the four hyphens between the groups, which must be there. -/
def ungroup? (cs : List Char) : Option (List Char) :=
  if cs.length = 36 ∧ [8, 13, 18, 23].all (cs[·]? = some '-') then
    some (cs.take 8 ++ (cs.drop 9).take 4 ++ (cs.drop 14).take 4 ++ (cs.drop 19).take 4 ++ cs.drop 24)
  else none

/-- The mark of a uniform resource name, which may be in either case. -/
def urnMark : List Char := "urn:uuid:".toList

/-- The grouped digits inside braces or after the mark, or the text itself. -/
def withoutFrame (cs : List Char) : List Char :=
  if cs.length = 38 ∧ cs.head? = some '\x7b' ∧ cs.getLast? = some '\x7d' then (cs.drop 1).take 36
  else if cs.length = 45 ∧ (cs.take 9).map Char.toLower = urnMark then cs.drop 9
  else cs

def parse? (s : String) : Option Uuid :=
  let cs := s.toList
  if cs.length = 32 then ofHexDigits? cs else (ungroup? (withoutFrame cs)).bind ofHexDigits?

/-- Sets the version and variant marks of an identifier. -/
def stamp (version : Nat) (bs : List UInt8) : List UInt8 :=
  bs.mapIdx fun i b =>
    if i = 6 then b &&& 0x0f ||| UInt8.ofNat (version * 16)
    else if i = 8 then b &&& 0x3f ||| 0x80
    else b

/-- The space of object identifiers, in which names of entities are placed. -/
def objectSpace : Uuid := ofNat 0x6ba7b8129dad11d180b400c04fd430c8

/-- The identifier of a name in a space: the first sixteen bytes of the digest of both, stamped as
version 5. -/
def named (space : Uuid) (name : String) : Uuid :=
  ofBytes (stamp 5 ((Sha1.digest (space.bytes ++ name.toUTF8.toList)).take 16))

end Uuid

end Vivarium
