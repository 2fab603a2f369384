import SessionKeeper.Text.Percent

/-!
# Addresses

The address of a resource below a base address: scheme and host in lower case, the
standard port left out, and in the path every octet that cannot stand in an address
written with a percent sign.
-/
namespace SessionKeeper.Keyserver.Url

/-- Splits an address into scheme, authority and path, when it has a scheme. -/
def parts? (t : List Char) : Option (List Char × List Char × List Char) :=
  let scheme := t.takeWhile fun c => c ≠ ':' && c ≠ '/'
  match t.drop scheme.length with
  | ':' :: '/' :: '/' :: rest =>
    let authority := rest.takeWhile (· ≠ '/')
    some (scheme, authority, rest.drop authority.length)
  | _ => none

/-- The printable ASCII characters that cannot stand in the path of an address. -/
def pathBreakers : List Char := ['\x22', '#', '<', '>', '?', '\x60', '\x7b', '\x7d']

/-- Whether the character may stand in the path of an address. -/
def fitsPath (c : Char) : Bool := 0x20 < c.toNat && c.toNat < 0x7F && !pathBreakers.contains c

def escapePath (cs : List Char) : List Char :=
  cs.flatMap fun c =>
    if fitsPath c then [c]
    else (Utf8.encodeCode c.toNat).flatMap fun b =>
      ['%', Percent.digit (b.toNat / 16), Percent.digit b.toNat]

/-- The end of an authority that names the standard port of the scheme. -/
def standardPort (scheme : List Char) : List Char :=
  if scheme = "https".toList then ":443".toList
  else if scheme = "http".toList then ":80".toList
  else []

def dropStandardPort (scheme authority : List Char) : List Char :=
  let port := standardPort scheme
  if !port.isEmpty && port.isSuffixOf authority then
    authority.take (authority.length - port.length)
  else authority

/-- The address of a resource, whose path begins with a slash, below a base address. -/
def below (base : Text) (resource : String) : Text :=
  let cs := base.scalars
  let path := resource.toList
  match parts? cs with
  | some (scheme, authority, rest) =>
    let scheme := scheme.map Char.toLower
    let authority := dropStandardPort scheme (authority.map Char.toLower)
    Text.ofChars (scheme ++ "://".toList ++ authority ++ escapePath rest ++ path)
  | none => Text.ofChars (escapePath cs ++ path)

end SessionKeeper.Keyserver.Url
