import Mqtt.Client.Options
import Mqtt.Client.ServerName

/-!
# Setting up the transport

What is wrong with an address or with the settings of a secured transport, as far as it shows
before anything is sent.
-/
namespace Mqtt

namespace Address

/-- What is before and after the last colon. -/
def split? (s : String) : Option (String × String) :=
  let cs := s.toList.reverse
  let after := cs.takeWhile (· != ':')
  match cs.dropWhile (· != ':') with
  | [] => none
  | _ :: before => some (String.ofList before.reverse, String.ofList after.reverse)

/-- The number of a service has digits only, with perhaps a plus sign in front, and fits 16 bits. -/
def isService (s : String) : Bool :=
  let digits := match s.toList with
    | '+' :: cs => cs
    | cs => cs
  digits != [] && digits.all ServerName.isDigit &&
    digits.foldl (fun n c => 10 * n + (c.toNat - '0'.toNat)) 0 < 65536

/-- The host part of an address, without the brackets around it. -/
def host (address : String) : String :=
  let whole := match split? address with
    | some (host, service) => if isService service then host else address
    | none => address
  let cs := whole.toList.dropWhile (· == '[')
  String.ofList (cs.reverse.dropWhile (· == ']')).reverse

/-- Why an address leads nowhere. -/
def fault? (address : String) : Option TransportFault :=
  match split? address with
  | none => some .invalidAddress
  | some (_, service) => if isService service then none else some .invalidService

end Address

namespace Tls

/-- Why a transport cannot be secured: the name of the server first, then the pairing of
certificate and key, then the file of trusted certificates. `certificates` tells how many a file
holds, if there is one. -/
def fault? (t : Tls) (address : String) (certificates : String → Option Nat) : Option ClientError :=
  let name := t.serverName.getD (Address.host address)
  if !ServerName.isValid name then some (.invalidOptions (.serverName name))
  else if t.certFile.isSome != t.keyFile.isSome then some (.invalidOptions .certificateWithoutKey)
  else
    match certificates t.caFile with
    | none => some (.transport .missingFile)
    | some 0 => some (.invalidCertificate "no CA certificate found")
    | some _ => none

end Tls

namespace Options

/-- Why a client with these options cannot even try to reach its broker. -/
def setupFault? (o : Options) (certificates : String → Option Nat) : Option ClientError :=
  match o.fault? with
  | some fault => some (.invalidOptions fault)
  | none =>
    match o.tls with
    | some tls => tls.fault? o.address certificates
    | none => (Address.fault? o.address).map .transport

end Options

end Mqtt
