import Mathlib.Data.Nat.Notation

/-!
# Transport descriptors

Where a bridge connects to, and the string a descriptor is keyed by.
-/

namespace UnoQ.Transport

/-- Ports are natural numbers, as they are wherever a connection can be opened. What a credential
resolves to can have a port with a fraction, which no connection is opened to. -/
inductive TransportDescriptor
  | unix (path : String)
  | tcp (host : String) (port : ℕ)
  | tls (host : String) (port : ℕ) (ca cert key : String)
  | ssh (listenAddress : String) (listenPort : ℕ) (deviceNick : String)
  deriving DecidableEq, Repr

def TransportDescriptor.isSsh : TransportDescriptor → Bool
  | .ssh _ _ _ => true
  | _ => false

/-- Certificate material is not part of the key. -/
def describeTransport : TransportDescriptor → String
  | .unix path => "unix:" ++ path
  | .tcp host port => "tcp:" ++ host ++ ":" ++ toString port
  | .tls host port _ _ _ => "tls:" ++ host ++ ":" ++ toString port
  | .ssh listenAddress listenPort deviceNick =>
    "ssh:" ++ listenAddress ++ ":" ++ toString listenPort ++ "/" ++ deviceNick

end UnoQ.Transport
