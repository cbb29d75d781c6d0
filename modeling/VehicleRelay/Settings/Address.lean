import VehicleRelay.Settings.Basic

/-!
# Server addresses

An address is a URI reference: a path, an authority alone, or a scheme with an
authority that is not empty and perhaps a path, a query and a fragment.  It is
judged by its UTF-8 bytes.
-/

namespace VehicleRelay.Address

def isAlphanum (byte : UInt8) : Bool :=
  (Char.ofNat byte.toNat).isAlphanum

def isOneOf (characters : String) (byte : UInt8) : Bool :=
  characters.toList.contains (Char.ofNat byte.toNat)

def isSchemeByte (byte : UInt8) : Bool :=
  isAlphanum byte || isOneOf "+-.~" byte

/-- The bytes of URIs, without the percent sign. -/
def isUriByte (byte : UInt8) : Bool :=
  isAlphanum byte || isOneOf "!#$&'()*+,-./:;=?@[]_~" byte

/-- Whether a byte is past the letters of ASCII and is not a delete character; it
may belong to a character beyond ASCII. -/
def isHighByte (byte : UInt8) : Bool :=
  0x7b ≤ byte.toNat && byte.toNat != 0x7f

/-- The bytes that may stand in a path. -/
def isPathByte (byte : UInt8) : Bool :=
  let number := byte.toNat
  number == 0x21 || number == 0x22 || (0x24 ≤ number && number ≤ 0x3b) || number == 0x3d ||
    (0x40 ≤ number && number ≤ 0x5f) || (0x61 ≤ number && number ≤ 0x7a) || isHighByte byte

/-- The bytes that may stand in a query. -/
def isQueryByte (byte : UInt8) : Bool :=
  let number := byte.toNat
  number == 0x21 || (0x24 ≤ number && number ≤ 0x3b) || number == 0x3d ||
    (0x3f ≤ number && number ≤ 0x7a) || isHighByte byte

def isEndOfAuthority (byte : UInt8) : Bool :=
  isOneOf "/?#" byte

/-- What has been seen of an authority. -/
structure AuthorityScan where
  colons : Nat := 0
  opened : Bool := false
  closed : Bool := false
  /-- A percent sign outside the part before an at sign. -/
  percent : Bool := false
  endsWithAt : Bool := false
deriving DecidableEq, Repr

namespace AuthorityScan

/-- The scan after one more byte.  Colons and percent signs count only after the
last at sign or closing bracket. -/
def next? (scan : AuthorityScan) (byte : UInt8) : Option AuthorityScan :=
  let scan := { scan with endsWithAt := false }
  match Char.ofNat byte.toNat with
  | ':' => if 8 ≤ scan.colons then none else some { scan with colons := scan.colons + 1 }
  | '[' => if scan.percent || scan.opened then none else some { scan with opened := true }
  | ']' =>
      if !scan.opened || scan.closed then none
      else some { scan with closed := true, colons := 0, percent := false }
  | '@' => some { scan with colons := 0, percent := false, endsWithAt := true }
  | '%' => some { scan with percent := true }
  | _ => if isUriByte byte then some scan else none

def accepts (scan : AuthorityScan) : Bool :=
  scan.opened == scan.closed && scan.colons ≤ 1 && !scan.percent && !scan.endsWithAt

end AuthorityScan

def isAuthority (bytes : List UInt8) : Bool :=
  match bytes.foldlM AuthorityScan.next? {} with
  | some scan => scan.accepts
  | none => false

/-- Whether bytes are a path with perhaps a query and a fragment, which may hold
anything. -/
def isPathAndQuery (bytes : List UInt8) : Bool :=
  let isMark (byte : UInt8) : Bool := isOneOf "?#" byte
  let path := bytes.takeWhile fun byte => !isMark byte
  let query :=
    match bytes.dropWhile fun byte => !isMark byte with
    | mark :: rest =>
        if isOneOf "?" mark then rest.takeWhile fun byte => !isOneOf "#" byte else []
    | [] => []
  path.all isPathByte && query.all isQueryByte

/-- What follows `://` after the scheme, which has at most 64 bytes; nothing for
a text without a scheme. -/
def afterScheme? (bytes : List UInt8) : Option (List UInt8) :=
  match bytes.dropWhile isSchemeByte with
  | colon :: slash :: other :: rest =>
      if isOneOf ":" colon && isOneOf "/" slash && isOneOf "/" other then some rest else none
  | _ => none

def schemeLength (bytes : List UInt8) : Nat :=
  (bytes.takeWhile isSchemeByte).length

def isUriBytes (bytes : List UInt8) : Bool :=
  if bytes.length = 0 ∨ 65534 < bytes.length then false
  else if (bytes.take 1).all (isOneOf "/") then isPathAndQuery bytes
  else
    match afterScheme? bytes with
    | some rest =>
        let authority := rest.takeWhile fun byte => !isEndOfAuthority byte
        schemeLength bytes ≤ 64 && !authority.isEmpty && isAuthority authority &&
          isPathAndQuery (rest.dropWhile fun byte => !isEndOfAuthority byte)
    | none => !bytes.any isEndOfAuthority && isAuthority bytes

def isValid (address : String) : Bool :=
  isUriBytes address.toUTF8.data.toList

end VehicleRelay.Address

namespace VehicleRelay.Settings

/-- Checks all that has to hold before a server is dialled. -/
def readyToConnect (settings : Settings) : Except SetupError Settings := do
  let settings ← settings.validate
  if Address.isValid settings.server.address then .ok settings
  else .error (.invalidAddress settings.server.address)

end VehicleRelay.Settings
