/-
  ParticleMesh — peers, secrets and contacts, and their texts.

  A peer is named by its public key. A secret is the seed of a key pair. A contact
  is a peer with addresses at which it may be reached.

  * `PeerId.ofText?` and `Secret.ofText?` read 64 hexadecimal digits of either
    case, with blanks around them; they tell a wrong number of digit pairs from
    text that is not pairs of digits;
  * `PeerId.text` writes lower-case digits;
  * `Contact.ofText?` reads a peer, an `@` and an address.
-/
import ParticleMesh.Text.Blank
import ParticleMesh.Text.Hex

namespace ParticleMesh

/-- A peer, named by its public key. -/
structure PeerId where
  key : Octets 32
deriving DecidableEq, Inhabited

/-- The seed of a key pair. -/
abbrev Secret := Octets 32

abbrev Signature := Octets 64

abbrev Digest := Octets 32

/-- The identifier of a particle. -/
abbrev ParticleId := String

/-- Why a text is not the digits of a key. -/
inductive KeyTextError where
  /-- It is not pairs of hexadecimal digits. -/
  | notHex
  /-- It is digits, but of another number of bytes. -/
  | wrongLength (bytes : Nat)
deriving DecidableEq

/-- The 32 bytes that a text of digits writes, blanks around it aside. -/
def keyOfText? (s : String) : Except KeyTextError (Octets 32) :=
  match Text.Hex.decode? (Text.trim s.toList) with
  | none => .error .notHex
  | some bs =>
    match Octets.ofList? 32 bs with
    | none => .error (.wrongLength bs.length)
    | some key => .ok key

namespace PeerId

/-- The public key in lower-case digits. -/
def text (p : PeerId) : String := Text.Hex.text p.key.toList

/-- The name of a peer in reports: its first twelve digits. -/
def shortText (p : PeerId) : String :=
  "PeerId(" ++ String.ofList ((Text.Hex.encode p.key.toList).take 12) ++ ")"

/-- The peer that a text names. -/
def ofText? (s : String) : Except KeyTextError PeerId := (keyOfText? s).map .mk

/-- What is wrong with the text of a peer. -/
def textError : KeyTextError → String
  | .notHex => "decode error: peer id is not hex"
  | .wrongLength _ => "invalid input: peer id must be 32 bytes"

end PeerId

namespace Secret

/-- The secret that a text of digits writes. -/
def ofText? (s : String) : Except KeyTextError Secret := keyOfText? s

/-- What is wrong with the text of a secret. -/
def textError : KeyTextError → String
  | .notHex => "secret key is not valid hex"
  | .wrongLength n => "secret key must be 32 bytes, got " ++ toString n

end Secret

/-- A peer with addresses at which it may be reached. -/
structure Contact where
  peer : PeerId
  addresses : List String
deriving DecidableEq, Inhabited

/-- Why a text is not a contact. -/
inductive ContactTextError where
  | noAddress
  /-- What stands before the `@` is not a peer. -/
  | badPeer (e : KeyTextError)
  | emptyAddress
deriving DecidableEq

namespace Contact

/-- The contact that a text writes: a peer up to the first `@`, and as its only
    address the rest without blanks around it. -/
def ofText? (s : String) : Except ContactTextError Contact :=
  match s.toList.span (· ≠ '@') with
  | (_, []) => .error .noAddress
  | (peer, _ :: rest) =>
    match PeerId.ofText? (String.ofList peer) with
    | .error e => .error (.badPeer e)
    | .ok p =>
      match Text.trim rest with
      | [] => .error .emptyAddress
      | address => .ok ⟨p, [String.ofList address]⟩

/-- What is wrong with the text of a contact. -/
def textError (s : String) : ContactTextError → String
  | .noAddress => "contact `" ++ s ++ "` is missing `@<address>`"
  | .badPeer e => "contact `" ++ s ++ "`: " ++ PeerId.textError e
  | .emptyAddress => "contact `" ++ s ++ "` has an empty address"

end Contact

end ParticleMesh
